/-
# `Smoll.Chat.Server` — the chat server of `thread-asyncio`

One list of websockets, two kinds of coroutines: `serve`, one for each
connection, which appends its socket, and `notify`, which takes the messages
from the queue one by one and sends each to every socket of the list.  They
are interleaved at each `await`: sockets are appended while `notify` waits for
a message and while one of its sends is suspended.

`notify` walks the very list it removes from, so it is a `Sweep`
(`forEach_sweep`): behind a closed socket the next one gets no message.  A
message reaches every live socket exactly when none of the sockets but the last
is closed (`delivers_iff`).
-/
import Smoll.Lib.Sweep
import Mathlib.Data.List.Count

namespace Smoll.Chat

/-! ## The source -/

structure ChatServer (S : Type) where
  websockets : List S
  deriving Repr

/-- What happens around one message: who connects before it, which sockets raise
`ConnectionClosed`, and who connects during its first send, its second and so on. -/
structure Turn (S M : Type) where
  message : M
  connecting : List S
  closed : S → Bool
  joining : List (List S)

variable {S M : Type} [DecidableEq S]

namespace ChatServer

/-- `serve`, until its first `await`. -/
def serve (self : ChatServer S) (websocket : S) : ChatServer S :=
  if websocket ∉ self.websockets then
    { self with websockets := self.websockets ++ [websocket] }
  else self

/-- `await websocket.send(message)`, with the handler of `ConnectionClosed`. -/
def trySend (closed : S → Bool) (self : ChatServer S) (websocket : S) (joining : List S) :
    ChatServer S :=
  let self := joining.foldl serve self
  if closed websocket = true then
    { self with websockets := self.websockets.erase websocket }
  else self

omit [DecidableEq S] in
theorem headD_append_tail_flatten (joining : List (List S)) :
    joining.headD [] ++ joining.tail.flatten = joining.flatten := by
  cases joining with
  | nil => rfl
  | cons j joining => rfl

theorem length_foldl_serve (joining : List S) :
    ∀ self : ChatServer S,
      (joining.foldl serve self).websockets.length ≤ self.websockets.length + joining.length := by
  induction joining with
  | nil =>
      intro self
      exact Nat.le_refl _
  | cons w joining ih =>
      intro self
      have hserve : (self.serve w).websockets.length ≤ self.websockets.length + 1 := by
        rw [serve]
        split
        · exact Nat.le_of_eq List.length_append
        · exact Nat.le_succ _
      have hrest := ih (self.serve w)
      rw [List.foldl_cons, List.length_cons]
      omega

theorem length_trySend (closed : S → Bool) (self : ChatServer S) (websocket : S)
    (joining : List S) : (self.trySend closed websocket joining).websockets.length ≤
      self.websockets.length + joining.length := by
  rw [trySend]
  split
  · exact Nat.le_trans List.length_erase_le (length_foldl_serve joining self)
  · exact length_foldl_serve joining self

/-- `for websocket in self.websockets`, from an index on: the sends, and the server after. -/
def forEach (closed : S → Bool) (message : M) (self : ChatServer S) (index : Nat)
    (joining : List (List S)) : List (S × M) × ChatServer S :=
  if h : index < self.websockets.length then
    let websocket := self.websockets[index]
    let rest := forEach closed message
      (self.trySend closed websocket (joining.headD [])) (index + 1) joining.tail
    ((websocket, message) :: rest.1, rest.2)
  else ([], self)
termination_by self.websockets.length - index + joining.flatten.length
decreasing_by
  have hlength := length_trySend closed self self.websockets[index] (joining.headD [])
  have hjoining : (joining.headD []).length + joining.tail.flatten.length =
      joining.flatten.length := by
    rw [← List.length_append, headD_append_tail_flatten]
  omega

end ChatServer

/-- One message: the list when it was taken, the sends, and the list after the loop. -/
structure Round (S M : Type) where
  turn : Turn S M
  before : List S
  sent : List (S × M)
  after : List S

/-- The body of `notify`, once a message is taken. -/
def ChatServer.broadcast (self : ChatServer S) (turn : Turn S M) : Round S M × ChatServer S :=
  let loop := self.forEach turn.closed turn.message 0 turn.joining
  (⟨turn, self.websockets, loop.1, loop.2.websockets⟩, loop.2)

/-- `notify`, for so many messages. -/
def ChatServer.notify (self : ChatServer S) : List (Turn S M) → List (Round S M)
  | [] => []
  | turn :: turns =>
      let taken := (turn.connecting.foldl serve self).broadcast turn
      taken.1 :: taken.2.notify turns

/-! ## What a broadcast has to do -/

/-- Who joined during the sends. -/
def Round.joined (round : Round S M) : List S :=
  Sweep.joined round.turn.joining round.sent.length

/-- The send of a socket that joined failed. -/
def Round.failed [DecidableEq M] (round : Round S M) (w : S) : Bool :=
  round.turn.closed w && decide ((w, round.turn.message) ∈ round.sent)

/-- Each live socket of the list gets the message once, and the list keeps the sockets whose
send does not fail; a socket that joined during the loop need not be sent the message. -/
structure Round.Delivers [DecidableEq M] (round : Round S M) : Prop where
  once : ∀ w ∈ round.before, round.turn.closed w = false →
    round.sent.count (w, round.turn.message) = 1
  left : round.after = (round.before.filter fun w => !round.turn.closed w) ++
    round.joined.filter fun w => !round.failed w

/-- Every connection has its own socket. -/
def Fresh (self : ChatServer S) (turns : List (Turn S M)) : Prop :=
  (self.websockets ++
    turns.flatMap fun turn => turn.connecting ++ turn.joining.flatten).Nodup

/-! ## The loop is a sweep -/

namespace ChatServer

theorem foldl_serve (joining : List S) :
    ∀ self : ChatServer S, (self.websockets ++ joining).Nodup →
      joining.foldl serve self = ⟨self.websockets ++ joining⟩ := by
  induction joining with
  | nil =>
      intro self _
      rw [List.append_nil]
      rfl
  | cons w joining ih =>
      intro self hnodup
      have hnew : w ∉ self.websockets := fun hw =>
        (List.disjoint_of_nodup_append hnodup) hw (List.mem_cons_self ..)
      have hserve : self.serve w = ⟨self.websockets ++ [w]⟩ := if_pos hnew
      have hassoc : self.websockets ++ w :: joining = self.websockets ++ [w] ++ joining := by
        rw [List.append_assoc, List.singleton_append]
      rw [hassoc] at hnodup ⊢
      rw [List.foldl_cons, hserve]
      exact ih ⟨self.websockets ++ [w]⟩ hnodup

/-- One send, at a socket with `passed` before it in the list. -/
theorem trySend_eq (closed : S → Bool) {passed rest joining : List S} {w : S}
    (hnodup : (passed ++ w :: rest ++ joining).Nodup) :
    trySend closed ⟨passed ++ w :: rest⟩ w joining =
      ⟨passed ++ ((if closed w = true then [] else [w]) ++ (rest ++ joining))⟩ := by
  have hw : w ∉ passed := fun hmem =>
    (List.disjoint_of_nodup_append hnodup.of_append_left) hmem (List.mem_cons_self ..)
  rw [trySend, foldl_serve joining _ hnodup]
  split
  · show ChatServer.mk ((passed ++ w :: rest ++ joining).erase w) = _
    rw [List.append_assoc, List.cons_append, List.erase_append_right _ hw, List.erase_cons_head]
    rfl
  · show ChatServer.mk (passed ++ w :: rest ++ joining) = _
    rw [List.append_assoc, List.cons_append]
    rfl

theorem forEach_of_le (closed : S → Bool) (message : M) {self : ChatServer S} {index : Nat}
    (h : self.websockets.length ≤ index) (joining : List (List S)) :
    forEach closed message self index joining = ([], self) := by
  rw [forEach, dif_neg (Nat.not_lt.mpr h)]

/-- One turn of the loop, with `passed` before the index. -/
theorem forEach_visit (closed : S → Bool) (message : M) {passed rest : List S} {w : S}
    {joining : List (List S)} (hnodup : (passed ++ w :: rest ++ joining.flatten).Nodup) :
    forEach closed message ⟨passed ++ w :: rest⟩ passed.length joining =
      let loop := forEach closed message
        ⟨passed ++ ((if closed w = true then [] else [w]) ++ (rest ++ joining.headD []))⟩
        (passed.length + 1) joining.tail
      ((w, message) :: loop.1, loop.2) := by
  have hindex : passed.length < (passed ++ w :: rest).length := by
    rw [List.length_append, List.length_cons]
    omega
  have hw : (passed ++ w :: rest)[passed.length] = w := by
    rw [List.getElem_append_right (Nat.le_refl _)]
    simp only [Nat.sub_self, List.getElem_cons_zero]
  rw [← headD_append_tail_flatten joining, ← List.append_assoc] at hnodup
  rw [forEach, dif_pos hindex]
  simp only [hw]
  rw [trySend_eq closed hnodup.of_append_left]

/-- From an index on, the loop is a sweep of the rest of the list. -/
def Sweeps (closed : S → Bool) (message : M) (ws : List S) (index : Nat)
    (joining : List (List S)) : Prop :=
  ∃ visited kept, Sweep closed joining (ws.drop index) visited kept ∧
    forEach closed message ⟨ws⟩ index joining =
      (visited.map fun w => (w, message), ⟨ws.take index ++ kept⟩)

section Visit

variable {closed : S → Bool} {message : M} {passed rest : List S} {w : S}
  {joining : List (List S)}

/-- The send to `w` succeeds. -/
theorem Sweeps.stays (hnodup : (passed ++ w :: rest ++ joining.flatten).Nodup)
    (hopen : closed w = false)
    (h : Sweeps closed message (passed ++ [w] ++ (rest ++ joining.headD []))
      (passed ++ [w]).length joining.tail) :
    Sweeps closed message (passed ++ w :: rest) passed.length joining := by
  rcases h with ⟨visited, kept, hsweep, hloop⟩
  have hws : passed ++ ([w] ++ (rest ++ joining.headD [])) =
      (passed ++ [w]) ++ (rest ++ joining.headD []) := (List.append_assoc ..).symm
  have hindex : passed.length + 1 = (passed ++ [w]).length := by
    rw [List.length_append]
    rfl
  rw [List.drop_left] at hsweep
  refine ⟨w :: visited, w :: kept, ?_, ?_⟩
  · rw [List.drop_left]
    exact .stays hopen hsweep
  · rw [List.take_left, forEach_visit closed message hnodup, hopen, if_neg nofun, hws, hindex,
      hloop, List.take_left, List.append_assoc]
    rfl

/-- The send to `w` fails, and the index passes over what is now in its place. -/
theorem Sweeps.goes (hnodup : (passed ++ w :: rest ++ joining.flatten).Nodup)
    (hclosed : closed w = true)
    (h : Sweeps closed message (passed ++ (rest ++ joining.headD [])) (passed.length + 1)
      joining.tail) :
    Sweeps closed message (passed ++ w :: rest) passed.length joining := by
  rcases h with ⟨visited, kept, hsweep, hloop⟩
  have hdrop : (passed ++ (rest ++ joining.headD [])).drop (passed.length + 1) =
      (rest ++ joining.headD []).drop 1 := List.drop_length_add_append 1
  have htake : (passed ++ (rest ++ joining.headD [])).take (passed.length + 1) =
      passed ++ (rest ++ joining.headD []).take 1 := List.take_length_add_append 1
  rw [hdrop] at hsweep
  refine ⟨w :: visited, (rest ++ joining.headD []).take 1 ++ kept, ?_, ?_⟩
  · rw [List.drop_left]
    exact .goes hclosed hsweep
  · rw [List.take_left, forEach_visit closed message hnodup, hclosed, if_pos rfl,
      List.nil_append, hloop, htake, List.append_assoc]
    rfl

end Visit

/-- The `for` loop is a sweep of the list from its index on. -/
theorem forEach_sweep (closed : S → Bool) (message : M) (n : Nat) :
    ∀ (ws : List S) (index : Nat) (joining : List (List S)),
      (ws.drop index).length + joining.flatten.length < n → (ws ++ joining.flatten).Nodup →
      Sweeps closed message ws index joining := by
  induction n with
  | zero =>
      intro ws index joining hlt
      cases hlt
  | succ n ih =>
      intro ws index joining hlt hnodup
      rcases Nat.lt_or_ge index ws.length with hindex | hend
      · -- the list is `passed ++ w :: rest`
        obtain ⟨passed, w, rest, rfl, rfl⟩ :
            ∃ passed w rest, passed ++ w :: rest = ws ∧ index = passed.length := by
          refine ⟨ws.take index, ws[index], ws.drop (index + 1), ?_, ?_⟩
          · rw [← List.drop_eq_getElem_cons hindex, List.take_append_drop]
          · exact (List.length_take_of_le (Nat.le_of_lt hindex)).symm
        have hlength : (rest ++ joining.headD []).length + joining.tail.flatten.length < n := by
          rw [List.drop_left, ← headD_append_tail_flatten joining] at hlt
          simp only [List.length_append, List.length_cons] at hlt ⊢
          omega
        have hrest : (passed ++ w :: (rest ++ joining.headD [] ++ joining.tail.flatten)).Nodup := by
          rw [← headD_append_tail_flatten joining, List.append_assoc, List.cons_append,
            ← List.append_assoc rest] at hnodup
          exact hnodup
        cases hfails : closed w with
        | false =>
            refine .stays hnodup hfails (ih _ _ _ ?_ ?_)
            · rwa [List.drop_left]
            · rw [List.append_assoc, List.append_assoc]
              exact hrest
        | true =>
            refine .goes hnodup hfails (ih _ _ _ ?_ ?_)
            · rw [List.drop_length_add_append, List.length_drop]
              omega
            · rw [List.append_assoc]
              exact hrest.sublist ((List.sublist_cons_self _ _).append_left _)
      · refine ⟨[], [], ?_, ?_⟩
        · rw [List.drop_eq_nil_of_le hend]
          exact .done
        · rw [forEach_of_le closed message hend, List.take_of_length_le hend, List.append_nil]
          rfl

/-- The loop over the whole list. -/
theorem broadcast_sweep (turn : Turn S M) {ws : List S}
    (hnodup : (ws ++ turn.joining.flatten).Nodup) :
    ∃ visited kept, Sweep turn.closed turn.joining ws visited kept ∧
      broadcast ⟨ws⟩ turn =
        (⟨turn, ws, visited.map fun w => (w, turn.message), kept⟩, ⟨kept⟩) := by
  rcases forEach_sweep turn.closed turn.message _ ws 0 turn.joining (Nat.lt_succ_self _) hnodup
    with ⟨visited, kept, hsweep, hloop⟩
  refine ⟨visited, kept, hsweep, ?_⟩
  rw [broadcast, hloop]
  rfl

end ChatServer

/-! ## When a message reaches every live socket -/

omit [DecidableEq S] in
theorem mem_sent {visited : List S} {message : M} {w : S} :
    (w, message) ∈ visited.map (fun w => (w, message)) ↔ w ∈ visited := by
  rw [List.mem_map]
  constructor
  · rintro ⟨v, hv, heq⟩
    cases heq
    exact hv
  · intro hw
    exact ⟨w, hw, rfl⟩

theorem count_sent [DecidableEq M] {visited : List S} {message : M} {w : S} :
    (visited.map fun w => (w, message)).count (w, message) = visited.count w :=
  List.count_map_of_injective visited (fun w => (w, message)) (fun _ _ h => congrArg Prod.fst h) w

/-- **One message.**  It reaches every live socket of the list, and the list is left as it
should be, exactly when no socket but the last of the list is closed. -/
theorem delivers_iff [DecidableEq M] (turn : Turn S M) {ws : List S}
    (hnodup : (ws ++ turn.joining.flatten).Nodup) :
    (ChatServer.broadcast ⟨ws⟩ turn).1.Delivers ↔
      ∀ w ∈ ws.dropLast, turn.closed w = false := by
  rcases ChatServer.broadcast_sweep turn hnodup with ⟨visited, kept, hsweep, hloop⟩
  rw [hloop]
  have hjoined : (ws ++ Sweep.joined turn.joining visited.length).Nodup :=
    hnodup.sublist ((Sweep.joined_sublist _ _).append_left ws)
  have hvisited : visited.Nodup := hjoined.sublist hsweep.visited_sublist
  have hkept := hsweep.kept_eq hjoined
  constructor
  · rintro ⟨honce, hleft⟩ w hw
    by_contra hclosed
    have hfails : turn.closed w = true := (Bool.not_eq_false _).mp hclosed
    have hold : Sweep turn.closed turn.joining (ws ++ []) visited kept := by
      rwa [List.append_nil]
    rcases Sweep.exists_unvisited ws hold (by rwa [List.append_nil]) ⟨w, hw, hfails⟩
      with ⟨y, hy, hunvisited⟩
    cases hyclosed : turn.closed y with
    | false =>
        -- a live socket got no message
        have hcount := honce y hy hyclosed
        rw [count_sent, List.count_eq_zero_of_not_mem hunvisited] at hcount
        cases hcount
    | true =>
        -- a closed socket is still in the list
        have hstays : y ∈ kept := by
          rw [hkept]
          refine List.mem_filter.mpr ⟨List.mem_append_left _ hy, ?_⟩
          rw [Sweep.survives, decide_eq_false hunvisited, Bool.and_false]
          rfl
        have hleft : kept = (ws.filter fun w => !turn.closed w) ++
            (Sweep.joined turn.joining _).filter _ := hleft
        rw [hleft] at hstays
        rcases List.mem_append.mp hstays with hmem | hmem
        · have hlive := (List.mem_filter.mp hmem).2
          rw [hyclosed] at hlive
          cases hlive
        · have hjoin := (Sweep.joined_sublist _ _).subset (List.mem_filter.mp hmem).1
          exact (List.disjoint_of_nodup_append hnodup) hy hjoin
  · intro hopen
    have hold : Sweep turn.closed turn.joining (ws ++ []) visited kept := by
      rwa [List.append_nil]
    have hall := Sweep.prefix_visited ws hold hopen
    refine ⟨fun w hw _ => ?_, ?_⟩
    · rw [count_sent]
      exact List.count_eq_one_of_mem hvisited (hall w hw)
    · show kept = _ ++ (Sweep.joined turn.joining (List.map _ visited).length).filter _
      rw [hkept, List.filter_append, List.length_map]
      congr 1
      · refine List.filter_congr fun w hw => ?_
        rw [Sweep.survives, decide_eq_true (hall w hw), Bool.and_true]
      · refine List.filter_congr fun w _ => ?_
        rw [Sweep.survives, Round.failed, decide_eq_decide.mpr mem_sent]

/-! ## A run of `notify` -/

/-- The server after a message, and the turns that follow, are fresh again. -/
theorem fresh_after {self : ChatServer S} {turn : Turn S M} {turns : List (Turn S M)}
    (h : Fresh self (turn :: turns)) :
    turn.connecting.foldl ChatServer.serve self = ⟨self.websockets ++ turn.connecting⟩ ∧
      (self.websockets ++ turn.connecting ++ turn.joining.flatten).Nodup ∧
      Fresh (ChatServer.broadcast ⟨self.websockets ++ turn.connecting⟩ turn).2 turns := by
  have hall : (self.websockets ++ turn.connecting ++ turn.joining.flatten ++
      turns.flatMap fun turn => turn.connecting ++ turn.joining.flatten).Nodup := by
    rw [Fresh, List.flatMap_cons, ← List.append_assoc, ← List.append_assoc] at h
    exact h
  have hloop := hall.of_append_left
  refine ⟨ChatServer.foldl_serve _ self hloop.of_append_left, hloop, ?_⟩
  rcases ChatServer.broadcast_sweep turn hloop with ⟨visited, kept, hsweep, hbroadcast⟩
  have hjoined : (self.websockets ++ turn.connecting ++
      Sweep.joined turn.joining visited.length).Sublist
        (self.websockets ++ turn.connecting ++ turn.joining.flatten) :=
    (Sweep.joined_sublist _ _).append_left _
  have hkept : kept.Sublist (self.websockets ++ turn.connecting ++ turn.joining.flatten) := by
    rw [hsweep.kept_eq (hloop.sublist hjoined)]
    exact List.filter_sublist.trans hjoined
  rw [hbroadcast]
  exact hall.sublist (hkept.append_right _)

/-- **Broadcast reaches every live client** in a run exactly when, whenever a message is taken,
no socket of the list but its last is closed. -/
theorem reaches_every_live_client_iff [DecidableEq M] (turns : List (Turn S M)) :
    ∀ self : ChatServer S, Fresh self turns →
      ((∀ round ∈ self.notify turns, round.Delivers) ↔
        ∀ round ∈ self.notify turns, ∀ w ∈ round.before.dropLast,
          round.turn.closed w = false) := by
  induction turns with
  | nil =>
      intro self _
      exact ⟨fun _ _ h => (List.not_mem_nil h).elim, fun _ _ h => (List.not_mem_nil h).elim⟩
  | cons turn turns ih =>
      intro self hfresh
      rcases fresh_after hfresh with ⟨hserve, hnodup, hrest⟩
      have hround := delivers_iff turn hnodup
      have hturns := ih _ hrest
      rw [ChatServer.notify, hserve, List.forall_mem_cons, List.forall_mem_cons, hround, hturns]
      rfl

/-- Two sockets are connected, one message comes while `1` is closed: `2` is never sent it. -/
def firstClosed : Turn Nat String := ⟨"hi from callback", [1, 2], fun w => w == 1, []⟩

theorem not_reaches_every_live_client :
    ¬ (Fresh ⟨[]⟩ [firstClosed] →
      ∀ round ∈ (ChatServer.mk []).notify [firstClosed], round.Delivers) := by
  have hconnected : firstClosed.connecting.foldl ChatServer.serve ⟨[]⟩ = ⟨[1, 2]⟩ := rfl
  have hfresh : Fresh ⟨[]⟩ [firstClosed] := by
    show List.Nodup _
    decide
  intro h
  have hround := h hfresh _ (List.mem_cons_self ..)
  rw [hconnected, delivers_iff firstClosed (by decide)] at hround
  cases hround 1 (List.mem_cons_self ..)

/-- The last socket may be closed, and one may connect while it is sent its message. -/
theorem reaches_every_live_client_lastClosed :
    Fresh ⟨[]⟩ [Turn.mk "hi from callback" [1, 2] (fun w => w == 2) [[], [3]]] ∧
      ∀ round ∈ (ChatServer.mk []).notify
        [Turn.mk "hi from callback" [1, 2] (fun w => w == 2) [[], [3]]], round.Delivers := by
  have hfresh : Fresh ⟨[]⟩ [Turn.mk "hi from callback" [1, 2] (fun w => w == 2) [[], [3]]] := by
    show List.Nodup _
    decide
  refine ⟨hfresh, (reaches_every_live_client_iff _ ⟨[]⟩ hfresh).mpr fun round hround => ?_⟩
  rcases List.mem_singleton.mp hround with rfl
  decide

end Smoll.Chat
