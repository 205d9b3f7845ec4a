/-
# `Smoll.Chat.Messages` — what one socket is sent in a run of `notify`

`reaches_every_live_client_iff` says when no message is lost.  Here is what the
loop does in every other case too.  The line of a round is the list as the loop
finds it, with who joined during its sends behind it; a socket of the line is
sent the message exactly when an even number of closed sockets stands directly
before it (`sent_by_parity`):

    line     open  closed  closed  closed  open  open
    sent     yes   yes     no      yes     no    yes

Over a run (`messages_told`): a socket is sent, in order and each once, the messages of
the rounds that reach it, from the round it is first in the line of to the one
its send fails in.
-/
import Smoll.Chat.Server

namespace Smoll.Chat

variable {S M : Type} [DecidableEq S]

/-! ## One round -/

/-- The list as the loop finds it, and who joined during the sends. -/
def Round.line (round : Round S M) : List S := round.before ++ round.joined

/-- How many closed sockets stand directly before a socket of the line. -/
def Round.closedBefore (round : Round S M) (w : S) : Nat :=
  Sweep.endFails round.turn.closed (Sweep.ahead round.line w)

def Round.reaches (round : Round S M) (w : S) : Bool := decide (round.closedBefore w % 2 = 0)

/-- The send to `w` raises `ConnectionClosed`. -/
def Round.drops (round : Round S M) (w : S) : Bool := round.turn.closed w && round.reaches w

/-- The sends of a round and the list it leaves, read off its line. -/
structure Round.Exact (round : Round S M) : Prop where
  nodup : round.line.Nodup
  sent : round.sent = (round.line.filter round.reaches).map fun w => (w, round.turn.message)
  after : round.after = round.line.filter fun w => !round.drops w

theorem broadcast_exact (turn : Turn S M) {ws : List S}
    (hnodup : (ws ++ turn.joining.flatten).Nodup) :
    (ChatServer.broadcast ⟨ws⟩ turn).1.Exact := by
  obtain ⟨visited, kept, hsweep, hloop⟩ := ChatServer.broadcast_sweep turn hnodup
  have hline : (ws ++ Sweep.joined turn.joining visited.length).Nodup :=
    hnodup.sublist ((Sweep.joined_sublist _ _).append_left ws)
  have hlength : (visited.map fun w => (w, turn.message)).length = visited.length :=
    List.length_map _
  have hvisited := hsweep.visited_eq hline
  have hkept := hsweep.kept_eq hline
  rw [hloop]
  refine ⟨?_, ?_, ?_⟩
  · rw [Round.line, Round.joined, hlength]
    exact hline
  · show visited.map _ = _
    rw [Round.line, Round.joined, hlength]
    refine congrArg (List.map fun w => (w, turn.message)) (hvisited.trans ?_)
    refine List.filter_congr fun w _ => ?_
    rw [Round.reaches, Round.closedBefore, Round.line, Round.joined, hlength]
  · show kept = _
    rw [Round.line, Round.joined, hlength]
    refine hkept.trans (List.filter_congr fun w hw => ?_)
    have hmem : decide (w ∈ visited) = decide (Sweep.endFails turn.closed
        (Sweep.ahead (ws ++ Sweep.joined turn.joining visited.length) w) % 2 = 0) := by
      refine decide_eq_decide.mpr ?_
      constructor
      · intro hmem
        rw [hvisited] at hmem
        exact of_decide_eq_true (List.mem_filter.mp hmem).2
      · intro heven
        rw [hvisited]
        exact List.mem_filter.mpr ⟨hw, decide_eq_true heven⟩
    rw [Sweep.survives, hmem, Round.drops, Round.reaches, Round.closedBefore, Round.line,
      Round.joined, hlength]

/-! ## A run -/

/-- The messages sent to a socket, in order. -/
def told (w : S) (rounds : List (Round S M)) : List M :=
  rounds.flatMap fun round => (round.sent.filter fun p => decide (p.1 = w)).map Prod.snd

/-- The rounds up to the one that drops a socket. -/
def untilDropped (w : S) : List (Round S M) → List (Round S M)
  | [] => []
  | round :: rounds =>
      if round.drops w = true then [round] else round :: untilDropped w rounds

/-- The rounds from the first one with a socket in its line. -/
def since (w : S) (rounds : List (Round S M)) : List (Round S M) :=
  rounds.dropWhile fun round => decide (w ∉ round.line)

/-- A socket is in no list any more, and does not come back. -/
def Gone (w : S) (self : ChatServer S) (turns : List (Turn S M)) : Prop :=
  w ∉ self.websockets ++ turns.flatMap fun turn => turn.connecting ++ turn.joining.flatten

theorem told_cons (w : S) (round : Round S M) (rounds : List (Round S M)) :
    told w (round :: rounds) = told w [round] ++ told w rounds := by
  rw [told, told, told, List.flatMap_cons, List.flatMap_cons, List.flatMap_nil, List.append_nil]

/-- A round sends a socket its message once, if it reaches it. -/
theorem Round.Exact.told_once {round : Round S M} (h : round.Exact) (w : S) :
    told w [round] =
      if w ∈ round.line ∧ round.reaches w = true then [round.turn.message] else [] := by
  have hfilter : (round.sent.filter fun p => decide (p.1 = w)).map Prod.snd =
      ((round.line.filter round.reaches).filter fun x => decide (x = w)).map
        fun _ => round.turn.message := by
    rw [h.sent, List.filter_map, List.map_map]
    rfl
  have hreached : (round.line.filter round.reaches).Nodup := h.nodup.filter _
  rw [told, List.flatMap_cons, List.flatMap_nil, List.append_nil, hfilter, List.filter_eq,
    List.map_replicate, hreached.count]
  split
  · next hw =>
    rw [if_pos (List.mem_filter.mp hw)]
    rfl
  · next hw =>
    rw [if_neg fun hreach => hw (List.mem_filter.mpr hreach)]
    rfl

/-- What the first round leaves to the others. -/
structure Begins (server : ChatServer S) (turn : Turn S M) (turns : List (Turn S M))
    (round : Round S M) : Prop where
  rounds : server.notify (turn :: turns) = round :: (ChatServer.mk round.after).notify turns
  turn_eq : round.turn = turn
  exact : round.Exact
  before : round.before = server.websockets ++ turn.connecting
  joined : round.joined.Sublist turn.joining.flatten
  fresh : Fresh ⟨round.after⟩ turns
  apart : ∀ w ∈ round.line,
    w ∉ turns.flatMap fun turn => turn.connecting ++ turn.joining.flatten

theorem Fresh.begins {self : ChatServer S} {turn : Turn S M} {turns : List (Turn S M)}
    (h : Fresh self (turn :: turns)) : ∃ round, Begins self turn turns round := by
  obtain ⟨hserve, hnodup, hrest⟩ := fresh_after h
  have hall : (self.websockets ++ turn.connecting ++ turn.joining.flatten ++
      turns.flatMap fun turn => turn.connecting ++ turn.joining.flatten).Nodup := by
    rw [Fresh, List.flatMap_cons, ← List.append_assoc, ← List.append_assoc] at h
    exact h
  refine ⟨(ChatServer.broadcast ⟨self.websockets ++ turn.connecting⟩ turn).1, ?_, rfl,
    broadcast_exact turn hnodup, rfl, Sweep.joined_sublist _ _, hrest, ?_⟩
  · rw [ChatServer.notify, hserve]
    rfl
  · intro w hw
    have hline : w ∈ self.websockets ++ turn.connecting ++ turn.joining.flatten :=
      ((Sweep.joined_sublist _ _).append_left _).subset hw
    exact (List.disjoint_of_nodup_append hall) hline

section Begins

variable {self : ChatServer S} {turn : Turn S M} {turns : List (Turn S M)}
  {round : Round S M} {w : S}

theorem Begins.mem_line (h : Begins self turn turns round) (hw : w ∈ self.websockets) :
    w ∈ round.line := by
  rw [Round.line, h.before, List.append_assoc]
  exact List.mem_append_left _ hw

theorem Begins.mem_after (h : Begins self turn turns round) :
    w ∈ round.after ↔ w ∈ round.line ∧ round.drops w = false := by
  rw [h.exact.after, List.mem_filter, Bool.not_eq_true']

theorem Begins.gone (h : Begins self turn turns round) (hw : w ∈ round.line)
    (hdrops : round.drops w = true) : Gone w ⟨round.after⟩ turns := by
  intro hmem
  rcases List.mem_append.mp hmem with hafter | hlater
  · have hstays := (h.mem_after.mp hafter).2
    rw [hdrops] at hstays
    cases hstays
  · exact h.apart w hw hlater

theorem Begins.not_mem_line (h : Begins self turn turns round)
    (hgone : Gone w self (turn :: turns)) : w ∉ round.line := by
  intro hw
  refine hgone ?_
  rw [List.flatMap_cons, ← List.append_assoc, ← List.append_assoc]
  rw [Round.line, h.before] at hw
  exact List.mem_append_left _ ((h.joined.append_left _).subset hw)

theorem Begins.gone_after (h : Begins self turn turns round)
    (hgone : Gone w self (turn :: turns)) : Gone w ⟨round.after⟩ turns := by
  intro hmem
  rcases List.mem_append.mp hmem with hafter | hlater
  · exact h.not_mem_line hgone (h.mem_after.mp hafter).1
  · refine hgone (List.mem_append_right _ ?_)
    rw [List.flatMap_cons]
    exact List.mem_append_right _ hlater

end Begins

/-- A socket that is gone is sent nothing. -/
theorem told_of_gone {w : S} (turns : List (Turn S M)) :
    ∀ self : ChatServer S, Fresh self turns → Gone w self turns →
      told w (self.notify turns) = [] := by
  induction turns with
  | nil =>
      intro self _ _
      rfl
  | cons turn turns ih =>
      intro self hfresh hgone
      obtain ⟨round, hbegins⟩ := hfresh.begins
      have hline := hbegins.not_mem_line hgone
      rw [hbegins.rounds, told_cons, hbegins.exact.told_once, if_neg fun h => hline h.1,
        ih _ hbegins.fresh (hbegins.gone_after hgone)]
      rfl

/-- The messages of the rounds that reach a socket, until it is dropped. -/
def reachedBy (w : S) (rounds : List (Round S M)) : List M :=
  ((untilDropped w rounds).filter fun round => round.reaches w).map fun round =>
    round.turn.message

/-- A round with a socket in its line, when the later ones are as they should. -/
theorem Begins.told_reached {self : ChatServer S} {turn : Turn S M} {turns : List (Turn S M)}
    {round : Round S M} {w : S} (h : Begins self turn turns round) (hw : w ∈ round.line)
    (hrest : w ∈ round.after → told w ((ChatServer.mk round.after).notify turns) =
      reachedBy w ((ChatServer.mk round.after).notify turns)) :
    told w (self.notify (turn :: turns)) = reachedBy w (self.notify (turn :: turns)) := by
  rw [h.rounds, told_cons, h.exact.told_once, reachedBy, untilDropped]
  cases hdrops : round.drops w with
  | true =>
      have hreaches : round.reaches w = true := (Bool.and_eq_true_iff.mp hdrops).2
      rw [if_pos ⟨hw, hreaches⟩, if_pos rfl, told_of_gone turns _ h.fresh (h.gone hw hdrops),
        List.filter_cons, hreaches, if_pos rfl]
      rfl
  | false =>
      rw [hrest (h.mem_after.mpr ⟨hw, hdrops⟩), if_neg Bool.false_ne_true]
      cases hreaches : round.reaches w with
      | true =>
          rw [if_pos ⟨hw, rfl⟩, List.filter_cons, hreaches, if_pos rfl]
          rfl
      | false =>
          rw [if_neg fun hboth => Bool.false_ne_true hboth.2, List.filter_cons, hreaches,
            if_neg Bool.false_ne_true]
          rfl

theorem told_of_mem {w : S} (turns : List (Turn S M)) :
    ∀ self : ChatServer S, Fresh self turns → w ∈ self.websockets →
      told w (self.notify turns) = reachedBy w (self.notify turns) := by
  induction turns with
  | nil =>
      intro self _ _
      rfl
  | cons turn turns ih =>
      intro self hfresh hw
      obtain ⟨round, hbegins⟩ := hfresh.begins
      exact hbegins.told_reached (hbegins.mem_line hw) (ih _ hbegins.fresh)

/-! ## The results -/

/-- **One round of a run**, in full: who is sent the message, in which order, and who stays. -/
theorem sent_by_parity (turns : List (Turn S M)) :
    ∀ self : ChatServer S, Fresh self turns → ∀ round ∈ self.notify turns, round.Exact := by
  induction turns with
  | nil =>
      intro self _ round hround
      cases hround
  | cons turn turns ih =>
      intro self hfresh round hround
      obtain ⟨first, hbegins⟩ := hfresh.begins
      rw [hbegins.rounds] at hround
      rcases List.mem_cons.mp hround with rfl | hlater
      · exact hbegins.exact
      · exact ih _ hbegins.fresh round hlater

/-- Four sockets; two of them are closed when the first message comes. -/
def twoClosed : List (Turn Nat String) :=
  [⟨"hi from callback", [1, 2, 3, 4], fun w => w == 1 || w == 2, []⟩,
    ⟨"hi again", [], fun w => w == 2, [[5]]⟩]

theorem fresh_twoClosed : Fresh ⟨[]⟩ twoClosed := by
  show List.Nodup _
  decide

theorem sent_by_parity_twoClosed :
    Fresh ⟨[]⟩ twoClosed ∧ ∀ round ∈ (ChatServer.mk []).notify twoClosed, round.Exact :=
  ⟨fresh_twoClosed, sent_by_parity twoClosed ⟨[]⟩ fresh_twoClosed⟩

/-- **One socket over a run.**  It is sent, in order and each once, the messages of the rounds
that reach it, from the first it is in the line of to the one that drops it. -/
theorem messages_told {w : S} (turns : List (Turn S M)) :
    ∀ self : ChatServer S, Fresh self turns →
      told w (self.notify turns) = reachedBy w (since w (self.notify turns)) := by
  induction turns with
  | nil =>
      intro self _
      rfl
  | cons turn turns ih =>
      intro self hfresh
      obtain ⟨round, hbegins⟩ := hfresh.begins
      by_cases hw : w ∈ round.line
      · have hsince : since w (self.notify (turn :: turns)) = self.notify (turn :: turns) := by
          rw [hbegins.rounds]
          exact List.dropWhile_cons_of_neg fun hnot => of_decide_eq_true hnot hw
        rw [hsince]
        exact hbegins.told_reached hw (told_of_mem turns _ hbegins.fresh)
      · have hsince : since w (self.notify (turn :: turns)) =
            since w ((ChatServer.mk round.after).notify turns) := by
          rw [hbegins.rounds]
          exact List.dropWhile_cons_of_pos (decide_eq_true hw)
        rw [hsince, hbegins.rounds, told_cons, hbegins.exact.told_once, if_neg fun h => hw h.1,
          ih _ hbegins.fresh]
        rfl

theorem messages_told_twoClosed : Fresh ⟨[]⟩ twoClosed ∧
    told 2 ((ChatServer.mk []).notify twoClosed) =
      reachedBy 2 (since 2 ((ChatServer.mk []).notify twoClosed)) :=
  ⟨fresh_twoClosed, messages_told twoClosed ⟨[]⟩ fresh_twoClosed⟩

end Smoll.Chat
