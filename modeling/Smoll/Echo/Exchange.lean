/-
# `Smoll.Echo.Exchange` — the client of the echo server waits for ever

The client reads until the stream ends and the server closes its end when the
client has closed: neither does, and the one thread of the client is in that
read.  So whatever is sent comes back, in order and complete, and is never
printed; the other connections of the client stop where they are
(`client_hangs`).

`Phase` says what a connection is doing, and `Echoing` what is true of its bytes,

    req = received ++ up ++ rest        sent = response ++ down

where `rest` is what `asio::write` has left and `response` what `asio::read` has
so far; the server relates `received` to `sent` (`Echoes`).  `weight` falls at
every move, so that every run ends.
-/
import Mathlib
import Smoll.Echo.Client
import Smoll.Echo.EndOfStream

namespace Smoll.Echo.Client

/-! ## The phases of a connection -/

/-- The bytes of a connection that is established. -/
structure Echoing (l : Link) (rest response : Bytes) (server : Echo.Connection) : Prop where
  accepted : l.server = some server
  echoes : Echoes server
  isOpen : server.socket.isOpen = true
  up : l.req = server.socket.received ++ l.up ++ rest
  down : server.socket.sent = response ++ l.down

/-- The session after `write`. -/
def Session.written : Session := ⟨.reading, [], []⟩

/-- What a connection is doing. -/
inductive Phase (l : Link) : Prop
  | resolving : l.resolving = true → l.handler = none → l.client = .new → l.server = none →
      Phase l
  | failed : l.resolving = false → l.handler = none → l.client = .new → l.server = none → Phase l
  | waitWrite {server} : l.resolving = false → l.handler = none →
      l.client = ⟨true, .new, false, true, [.waitWrite]⟩ → Echoing l l.req [] server → Phase l
  | writing {rest transferred server} : l.resolving = false → rest ≠ [] →
      l.handler = some (.writing rest transferred) → l.client = ⟨true, .new, false, false, []⟩ →
      Echoing l rest [] server → Phase l
  | waitRead {server} : l.resolving = false → l.handler = none →
      l.client = ⟨true, .written, true, false, [.waitRead]⟩ → Echoing l [] [] server → Phase l
  | reading {response server} : l.resolving = false → l.handler = some (.reading response) →
      l.client = ⟨true, .written, false, false, []⟩ → Echoing l [] response server → Phase l

/-- A connection, between two moves. -/
structure Fine (l : Link) : Prop where
  req : l.req ≠ []
  printed : l.printed = []
  up : l.server = none → l.up = []
  down : l.server = none → l.down = []
  phase : Phase l

theorem fine_request {req : Bytes} (h : req ≠ []) : Fine (Link.request req) where
  req := h
  printed := rfl
  up := fun _ => rfl
  down := fun _ => rfl
  phase := .resolving rfl rfl rfl rfl

theorem echoing_start (l : Link) (hup : l.up = []) (hdown : l.down = [])
    (hserver : l.server = some Echo.Connection.new.start) :
    Echoing l l.req [] Echo.Connection.new.start where
  accepted := hserver
  echoes := echoes_start
  isOpen := rfl
  up := by rw [hup]; rfl
  down := by rw [hdown]; rfl

/-! ## The server's moves -/

theorem server_read {server server' : Echo.Connection} {readBuffer : Bytes}
    (hstep : Echo.Connection.step (.read .success readBuffer .wouldBlock) server = some server') :
    server'.socket = { server.socket with received := server.socket.received ++ readBuffer } := by
  rw [Echo.Connection.step] at hstep
  split at hstep
  · cases hstep
    rw [Connection.onRead_success, Connection.finish, if_pos (.inr rfl), operations_socket]
    exact received_read _ _ _
  · cases hstep

theorem server_write {server server' : Echo.Connection} {n : Nat} {writeEc : ErrorCode}
    (hec : writeEc = .success ∨ writeEc = .wouldBlock)
    (hstep : Echo.Connection.step (.write .success n writeEc) server = some server') :
    server'.socket =
        { server.socket with sent := server.socket.sent ++ server.session.writeBuffer.take n } ∧
      n ≤ server.session.writeBuffer.length := by
  rw [Echo.Connection.step] at hstep
  split at hstep
  · next hwait =>
      cases hstep
      refine ⟨?_, hwait.2⟩
      rw [Connection.onWrite_success, Connection.finish, if_pos hec, operations_socket]
      show (server.session.write server.socket n).2 = _
      rw [Echo.Session.write]
      split
      · rfl
      · rfl
  · cases hstep

/-- The bytes the server holds. -/
theorem buffer_length {server : Echo.Connection} (h : Echoes server) :
    server.socket.received.length =
      server.socket.sent.length + server.session.writeBuffer.length := by
  rw [h.inOrder.bytes, List.length_append]

namespace Echoing

variable {l : Link} {rest response : Bytes} {server server' : Echo.Connection}

/-- The server reads all that is under way. -/
theorem serverRead (h : Echoing l rest response server)
    (hstep : Echo.Connection.step (.read .success l.up .wouldBlock) server = some server') :
    Echoing { l with server := some server', up := [] } rest response server' where
  accepted := rfl
  echoes := h.echoes.step hstep
  isOpen := by
    rw [server_read hstep]
    exact h.isOpen
  up := by
    rw [server_read hstep]
    show l.req = server.socket.received ++ l.up ++ [] ++ rest
    rw [List.append_nil]
    exact h.up
  down := by
    rw [server_read hstep]
    exact h.down

theorem serverWrite (h : Echoing l rest response server) {n : Nat} {writeEc : ErrorCode}
    (hec : writeEc = .success ∨ writeEc = .wouldBlock)
    (hstep : Echo.Connection.step (.write .success n writeEc) server = some server') :
    Echoing
      { l with server := some server', down := l.down ++ server.session.writeBuffer.take n }
      rest response server' where
  accepted := rfl
  echoes := h.echoes.step hstep
  isOpen := by
    rw [(server_write hec hstep).1]
    exact h.isOpen
  up := by
    rw [(server_write hec hstep).1]
    exact h.up
  down := by
    rw [(server_write hec hstep).1]
    show server.socket.sent ++ _ = response ++ (l.down ++ _)
    rw [h.down, List.append_assoc]

/-- The client's side is not looked at. -/
theorem congr (h : Echoing l rest response server) {l' : Link} (hreq : l'.req = l.req)
    (hserver : l'.server = l.server) (hup : l'.up = l.up) (hdown : l'.down = l.down) :
    Echoing l' rest response server where
  accepted := hserver.trans h.accepted
  echoes := h.echoes
  isOpen := h.isOpen
  up := by rw [hreq, hup, h.up]
  down := by rw [hdown, h.down]

/-- What is under way to the server grows by what `asio::write` sends. -/
theorem write (h : Echoing l rest [] server) (n : Nat) :
    Echoing { l with up := l.up ++ rest.take n } (rest.drop n) [] server where
  accepted := h.accepted
  echoes := h.echoes
  isOpen := h.isOpen
  up := by
    show l.req = server.socket.received ++ (l.up ++ rest.take n) ++ rest.drop n
    rw [h.up, List.append_assoc, List.append_assoc, List.append_assoc, List.take_append_drop]
  down := h.down

theorem read (h : Echoing l [] response server) (n : Nat) :
    Echoing { l with down := l.down.drop n } [] (response ++ l.down.take n) server where
  accepted := h.accepted
  echoes := h.echoes
  isOpen := h.isOpen
  up := h.up
  down := by
    show server.socket.sent = response ++ l.down.take n ++ l.down.drop n
    rw [List.append_assoc, List.take_append_drop, h.down]

/-- The server closes at the end of the stream only, and that does not come. -/
theorem not_closed (h : Echoing l rest response server) : l.serverClosed = false := by
  rw [Link.serverClosed, h.accepted, Option.any_some, h.isOpen]
  rfl

/-- A server that cannot write holds nothing. -/
theorem quiet_buffer (h : Echoing l rest response server)
    (hwrite : ∀ n, Link.step (.serverWrite n) l = none) :
    server.session.writeBuffer = [] := by
  refine Decidable.byContradiction fun hbuffer => ?_
  have hpos := List.length_pos_iff.mpr hbuffer
  have hstate : server.session.state = .writing := by
    cases hs : server.session.state with
    | reading => exact absurd (h.echoes.inOrder.empty.mp hs) hbuffer
    | writing => rfl
  have hwait : Wait.waitWrite ∈ server.waits := by
    rw [h.echoes.waits, if_pos h.isOpen, hstate]
    exact List.mem_singleton_self _
  have hnone := hwrite server.session.writeBuffer.length
  rw [Link.step, h.accepted] at hnone
  simp only [hpos, if_true, Echo.Connection.step] at hnone
  rw [if_pos ⟨hwait, Nat.le_refl _⟩] at hnone
  cases hnone

/-- A server that can do nothing has read everything and written it back. -/
theorem quiet (h : Echoing l rest response server) (hopen : l.client.isOpen = true)
    (hread : Link.step .serverRead l = none) (hwrite : ∀ n, Link.step (.serverWrite n) l = none) :
    l.up = [] ∧ server.session.writeBuffer = [] := by
  have hbuffer := h.quiet_buffer hwrite
  refine ⟨?_, hbuffer⟩
  refine Decidable.byContradiction fun hup => ?_
  have hwait : Wait.waitRead ∈ server.waits := by
    rw [h.echoes.waits, if_pos h.isOpen, h.echoes.inOrder.empty.mpr hbuffer]
    exact List.mem_singleton_self _
  rw [Link.step, h.accepted] at hread
  simp only [hopen, Echo.Connection.step] at hread
  rw [if_pos (.inl hup), if_pos hwait] at hread
  cases hread

end Echoing

/-! ## One move of a connection -/

/-- What `asio::write` has left, or has not begun. -/
def Link.owed (l : Link) : Nat :=
  match l.handler with
  | some (.writing rest _) => rest.length
  | some (.reading _) => 0
  | none =>
      if l.resolving = true ∨ Wait.waitWrite ∈ l.client.waits then l.req.length else 0

/-- How far it is from the read that does not return. -/
def Link.stage (l : Link) : Nat :=
  match l.handler with
  | some (.writing _ _) => 2
  | some (.reading _) => 0
  | none =>
      if l.resolving = true then 4
      else if Wait.waitWrite ∈ l.client.waits then 3
      else l.client.waits.length

/-- A byte goes through four moves. -/
def Link.weight (l : Link) : Nat :=
  4 * l.owed + 3 * l.up.length +
    2 * l.server.elim 0 (fun server => server.session.writeBuffer.length) + l.down.length + l.stage

/-- A move, and what it leaves. -/
structure Moved (l l' : Link) : Prop where
  fine : Fine l'
  req : l'.req = l.req
  weight : l'.weight < l.weight

namespace Fine

variable {l l' : Link}

theorem resolved (h : Fine l) {ok : Bool} (hstep : Link.step (.resolved ok) l = some l') :
    Moved l l' := by
  rw [Link.step, Option.ite_none_right_eq_some] at hstep
  rcases hstep with ⟨hresolving, hstep⟩
  cases hstep
  cases h.phase with
  | resolving _ hhandler hclient hserver =>
      have hup := h.up hserver
      have hdown := h.down hserver
      rcases l with ⟨req, resolving, client, handler, printed, up, down, server⟩
      dsimp only at hresolving hhandler hclient hserver hup hdown
      subst hresolving hhandler hclient hserver hup hdown
      cases ok with
      | false =>
          refine ⟨⟨h.req, h.printed, fun _ => rfl, fun _ => rfl, .failed rfl rfl rfl rfl⟩, rfl, ?_⟩
          exact Nat.succ_pos _
      | true =>
          refine ⟨⟨h.req, h.printed, nofun, nofun, ?_⟩, rfl, ?_⟩
          · exact .waitWrite rfl rfl rfl (echoing_start _ rfl rfl rfl)
          · show 4 * req.length + 0 + 0 + 0 + 3 < 4 * req.length + 0 + 0 + 0 + 4
            exact Nat.lt_succ_self _
  | failed hno _ _ _ => rw [hno] at hresolving; cases hresolving
  | waitWrite hno _ _ _ => rw [hno] at hresolving; cases hresolving
  | writing hno _ _ _ _ => rw [hno] at hresolving; cases hresolving
  | waitRead hno _ _ _ => rw [hno] at hresolving; cases hresolving
  | reading hno _ _ _ => rw [hno] at hresolving; cases hresolving

theorem waitWrite (h : Fine l) (hstep : Link.step (.waitOver .waitWrite) l = some l') :
    Moved l l' := by
  rw [Link.step, Option.ite_none_right_eq_some] at hstep
  rcases hstep with ⟨hwait, hstep⟩
  cases h.phase with
  | @waitWrite server hno hhandler hclient hechoing =>
      have hreq := h.req
      have hprinted := h.printed
      rcases l with ⟨req, resolving, client, handler, printed, up, down, server'⟩
      dsimp only at hno hhandler hclient hreq hprinted hstep
      subst hno hhandler hclient hprinted
      rw [if_neg hreq] at hstep
      cases hstep
      have hserver : server' = some server := hechoing.accepted
      subst hserver
      refine ⟨⟨hreq, rfl, nofun, nofun, ?_⟩, rfl, ?_⟩
      · exact .writing rfl hreq rfl rfl (hechoing.congr rfl rfl rfl rfl)
      · show 4 * req.length + _ + _ + _ + 2 < 4 * req.length + _ + _ + _ + 3
        exact Nat.lt_succ_self _
  | resolving _ _ hclient _ => rw [hclient] at hwait; cases hwait
  | failed _ _ hclient _ => rw [hclient] at hwait; cases hwait
  | writing _ _ _ hclient _ => rw [hclient] at hwait; cases hwait
  | waitRead _ _ hclient _ => rw [hclient] at hwait; cases hwait with | tail _ h => cases h
  | reading _ _ hclient _ => rw [hclient] at hwait; cases hwait

theorem waitRead (h : Fine l) (hstep : Link.step (.waitOver .waitRead) l = some l') :
    Moved l l' := by
  rw [Link.step, Option.ite_none_right_eq_some] at hstep
  rcases hstep with ⟨⟨hwait, _⟩, hstep⟩
  cases hstep
  cases h.phase with
  | @waitRead server hno hhandler hclient hechoing =>
      have hreq := h.req
      have hprinted := h.printed
      rcases l with ⟨req, resolving, client, handler, printed, up, down, server'⟩
      dsimp only at hno hhandler hclient hreq hprinted
      subst hno hhandler hclient hprinted
      have hserver : server' = some server := hechoing.accepted
      subst hserver
      refine ⟨⟨hreq, rfl, nofun, nofun, ?_⟩, rfl, ?_⟩
      · exact .reading rfl rfl rfl (hechoing.congr rfl rfl rfl rfl)
      · show 0 + _ + _ + _ + 0 < 0 + _ + _ + _ + 1
        exact Nat.lt_succ_self _
  | resolving _ _ hclient _ => rw [hclient] at hwait; cases hwait
  | failed _ _ hclient _ => rw [hclient] at hwait; cases hwait
  | waitWrite _ _ hclient _ => rw [hclient] at hwait; cases hwait with | tail _ h => cases h
  | writing _ _ _ hclient _ => rw [hclient] at hwait; cases hwait
  | reading _ _ hclient _ => rw [hclient] at hwait; cases hwait

theorem transfer (h : Fine l) {n : Nat} (hstep : Link.step (.transfer n) l = some l') :
    Moved l l' := by
  have hreq := h.req
  have hprinted := h.printed
  rw [Link.step] at hstep
  cases h.phase with
  | resolving _ hhandler _ _ => rw [hhandler] at hstep; cases hstep
  | failed _ hhandler _ _ => rw [hhandler] at hstep; cases hstep
  | waitWrite _ hhandler _ _ => rw [hhandler] at hstep; cases hstep
  | waitRead _ hhandler _ _ => rw [hhandler] at hstep; cases hstep
  | @writing rest transferred server hno hrest hhandler hclient hechoing =>
      rcases l with ⟨req, resolving, client, handler, printed, up, down, server'⟩
      dsimp only at hno hhandler hclient hreq hprinted
      subst hno hhandler hclient hprinted
      have hserver : server' = some server := hechoing.accepted
      subst hserver
      dsimp only at hstep
      rw [Option.ite_none_right_eq_some] at hstep
      rcases hstep with ⟨⟨hpos, hle⟩, hstep⟩
      have hlen : (up ++ rest.take n).length = up.length + n := by
        rw [List.length_append, List.length_take, Nat.min_eq_left hle]
      split at hstep
      · next hall =>
          cases hstep
          have hnil : rest.drop n = [] := by rw [hall, List.drop_length]
          have hdone : Link.written ⟨req, false, ⟨true, .new, false, false, []⟩,
                some (.writing rest transferred), [], up ++ rest.take n, down, some server⟩
                (transferred + n) =
              ⟨req, false, ⟨true, .written, true, false, [.waitRead]⟩, none, [],
                up ++ rest.take n, down, some server⟩ := by
            rw [Link.written, Session.write, if_pos (Nat.ne_of_gt (Nat.add_pos_right _ hpos))]
            rfl
          rw [hdone]
          have hwritten := hechoing.write n
          rw [hnil] at hwritten
          refine ⟨⟨hreq, rfl, nofun, nofun, ?_⟩, rfl, ?_⟩
          · exact .waitRead rfl rfl rfl (hwritten.congr rfl rfl rfl rfl)
          · show 0 + 3 * (up ++ rest.take n).length +
                2 * server.session.writeBuffer.length + down.length + 1 <
              4 * rest.length + 3 * up.length + 2 * server.session.writeBuffer.length +
                down.length + 2
            rw [hlen]
            omega
      · next hpart =>
          cases hstep
          refine ⟨⟨hreq, rfl, nofun, nofun, ?_⟩, rfl, ?_⟩
          · refine .writing rfl ?_ rfl rfl ((hechoing.write n).congr rfl rfl rfl rfl)
            rw [Ne, List.drop_eq_nil_iff]
            exact fun hge => hpart (Nat.le_antisymm hle hge)
          · show 4 * (rest.drop n).length + 3 * (up ++ rest.take n).length +
                2 * server.session.writeBuffer.length + down.length + 2 <
              4 * rest.length + 3 * up.length + 2 * server.session.writeBuffer.length +
                down.length + 2
            rw [hlen, List.length_drop]
            omega
  | @reading response server hno hhandler hclient hechoing =>
      rcases l with ⟨req, resolving, client, handler, printed, up, down, server'⟩
      dsimp only at hno hhandler hclient hreq hprinted
      subst hno hhandler hclient hprinted
      have hserver : server' = some server := hechoing.accepted
      subst hserver
      dsimp only at hstep
      rw [Option.ite_none_right_eq_some] at hstep
      rcases hstep with ⟨⟨hpos, hle⟩, hstep⟩
      cases hstep
      refine ⟨⟨hreq, rfl, nofun, nofun, ?_⟩, rfl, ?_⟩
      · exact .reading rfl rfl rfl ((hechoing.read n).congr rfl rfl rfl rfl)
      · show 0 + 3 * up.length + 2 * server.session.writeBuffer.length + (down.drop n).length + 0 <
          0 + 3 * up.length + 2 * server.session.writeBuffer.length + down.length + 0
        rw [List.length_drop]
        omega

/-- The read of the client does not return. -/
theorem not_endOfStream (h : Fine l) : Link.step .endOfStream l = none := by
  rw [Link.step]
  cases h.phase with
  | resolving _ hhandler _ _ => rw [hhandler]
  | failed _ hhandler _ _ => rw [hhandler]
  | waitWrite _ hhandler _ _ => rw [hhandler]
  | writing _ _ hhandler _ _ => rw [hhandler]
  | waitRead _ hhandler _ _ => rw [hhandler]
  | reading _ hhandler _ hechoing =>
      rw [hhandler]
      dsimp only
      rw [hechoing.not_closed]
      exact if_neg fun hclosed => nomatch hclosed.2

/-- A move of the server leaves the client's side alone. -/
theorem of_server (h : Fine l) {server server' : Echo.Connection} {up down : Bytes}
    (hserver : l.server = some server)
    (hechoing : ∀ rest response, Echoing l rest response server →
      Echoing { l with server := some server', up, down } rest response server') :
    Fine { l with server := some server', up, down } := by
  refine ⟨h.req, h.printed, nofun, nofun, ?_⟩
  have hsame : ∀ {rest response server''}, Echoing l rest response server'' →
      Echoing { l with server := some server', up, down } rest response server' := by
    intro rest response server'' hold
    obtain rfl : server'' = server := Option.some.inj (hold.accepted.symm.trans hserver)
    exact hechoing rest response hold
  cases h.phase with
  | resolving _ _ _ hnone => rw [hserver] at hnone; cases hnone
  | failed _ _ _ hnone => rw [hserver] at hnone; cases hnone
  | waitWrite hno hhandler hclient hold => exact .waitWrite hno hhandler hclient (hsame hold)
  | writing hno hrest hhandler hclient hold =>
      exact .writing hno hrest hhandler hclient (hsame hold)
  | waitRead hno hhandler hclient hold => exact .waitRead hno hhandler hclient (hsame hold)
  | reading hno hhandler hclient hold => exact .reading hno hhandler hclient (hsame hold)

/-- The server of a connection that is established. -/
theorem echoing (h : Fine l) {server : Echo.Connection} (hserver : l.server = some server) :
    l.client.isOpen = true ∧ l.resolving = false ∧ ∃ rest response, Echoing l rest response server := by
  have hsame : ∀ {rest response server'}, Echoing l rest response server' →
      ∃ rest response, Echoing l rest response server := by
    intro rest response server' hold
    obtain rfl : server' = server := Option.some.inj (hold.accepted.symm.trans hserver)
    exact ⟨rest, response, hold⟩
  cases h.phase with
  | resolving _ _ _ hnone => rw [hserver] at hnone; cases hnone
  | failed _ _ _ hnone => rw [hserver] at hnone; cases hnone
  | waitWrite hno _ hclient hold => exact ⟨by rw [hclient], hno, hsame hold⟩
  | writing hno _ _ hclient hold => exact ⟨by rw [hclient], hno, hsame hold⟩
  | waitRead hno _ hclient hold => exact ⟨by rw [hclient], hno, hsame hold⟩
  | reading hno _ hclient hold => exact ⟨by rw [hclient], hno, hsame hold⟩

theorem serverRead (h : Fine l) (hstep : Link.step .serverRead l = some l') : Moved l l' := by
  rw [Link.step] at hstep
  cases hserver : l.server with
  | none => rw [hserver] at hstep; cases hstep
  | some server =>
      rcases h.echoing hserver with ⟨hopen, _, rest, response, hold⟩
      rw [hserver] at hstep
      simp only [hopen, Bool.not_true, Bool.false_eq_true, or_false, if_true,
        Option.ite_none_right_eq_some, Option.map_eq_some_iff] at hstep
      rcases hstep with ⟨hup, server', hstep, hl'⟩
      subst hl'
      refine ⟨h.of_server hserver (fun _ _ hold => hold.serverRead hstep), rfl, ?_⟩
      have hread := server_read hstep
      have hold_length := buffer_length hold.echoes
      have hnew_length := buffer_length (hold.echoes.step hstep)
      have hpos := List.length_pos_iff.mpr hup
      rw [hread, List.length_append] at hnew_length
      show 4 * l.owed + 0 + 2 * server'.session.writeBuffer.length + l.down.length + l.stage <
        4 * l.owed + 3 * l.up.length +
          2 * l.server.elim 0 (fun server => server.session.writeBuffer.length) +
          l.down.length + l.stage
      rw [hserver, Option.elim_some]
      dsimp only at hnew_length
      omega

theorem serverWrite (h : Fine l) {n : Nat} (hstep : Link.step (.serverWrite n) l = some l') :
    Moved l l' := by
  rw [Link.step] at hstep
  cases hserver : l.server with
  | none => rw [hserver] at hstep; cases hstep
  | some server =>
      rcases h.echoing hserver with ⟨_, _, rest, response, hold⟩
      rw [hserver] at hstep
      simp only [Option.ite_none_right_eq_some, Option.map_eq_some_iff] at hstep
      rcases hstep with ⟨hpos, server', hstep, hl'⟩
      subst hl'
      have hec : (if n = server.session.writeBuffer.length then ErrorCode.success
          else .wouldBlock) = .success ∨
          (if n = server.session.writeBuffer.length then ErrorCode.success
            else .wouldBlock) = .wouldBlock := by
        split
        · exact .inl rfl
        · exact .inr rfl
      rcases server_write hec hstep with ⟨hwrite, hle⟩
      refine ⟨h.of_server hserver (fun _ _ hold => hold.serverWrite hec hstep), rfl, ?_⟩
      have hold_length := buffer_length hold.echoes
      have hnew_length := buffer_length (hold.echoes.step hstep)
      rw [hwrite, List.length_append, List.length_take, Nat.min_eq_left hle] at hnew_length
      show 4 * l.owed + 3 * l.up.length + 2 * server'.session.writeBuffer.length +
          (l.down ++ server.session.writeBuffer.take n).length + l.stage <
        4 * l.owed + 3 * l.up.length +
          2 * l.server.elim 0 (fun server => server.session.writeBuffer.length) +
          l.down.length + l.stage
      rw [hserver, Option.elim_some, List.length_append, List.length_take, Nat.min_eq_left hle]
      dsimp only at hnew_length
      omega

/-- Every move. -/
theorem step (h : Fine l) {move : Move} (hstep : Link.step move l = some l') : Moved l l' := by
  cases move with
  | resolved ok => exact h.resolved hstep
  | waitOver wait => cases wait with
    | waitRead => exact h.waitRead hstep
    | waitWrite => exact h.waitWrite hstep
  | transfer n => exact h.transfer hstep
  | endOfStream =>
      rw [h.not_endOfStream] at hstep
      cases hstep
  | serverRead => exact h.serverRead hstep
  | serverWrite n => exact h.serverWrite hstep

/-- A connection that the server cannot move any more, in the client's read or waiting for it. -/
theorem quiet (h : Fine l) {response : Bytes} {server : Echo.Connection}
    (hechoing : Echoing l [] response server) (hdown : l.down = [])
    (hread : Link.step .serverRead l = none) (hwrite : ∀ n, Link.step (.serverWrite n) l = none) :
    response = l.req := by
  have hopen := (h.echoing hechoing.accepted).1
  rcases hechoing.quiet hopen hread hwrite with ⟨hup, hbuffer⟩
  rw [hechoing.up, hup, List.append_nil, List.append_nil, hechoing.echoes.inOrder.bytes, hbuffer,
    List.append_nil, hechoing.down, hdown, List.append_nil]

end Fine

/-! ## The program -/

/-- The connections of the program, between two moves. -/
structure Sound (requests : List Bytes) (w : World) : Prop where
  reqs : w.links.map Link.req = requests
  fine : ∀ l ∈ w.links, Fine l
  one : ∀ (i j : Nat) (l l' : Link), w.links[i]? = some l → w.links[j]? = some l' →
    l.handler.isSome → l'.handler.isSome → i = j
  finished : w.finished = true → ∀ l ∈ w.links, l.server = none

def World.weight (w : World) : Nat :=
  (w.links.map Link.weight).sum + if w.finished = true then 0 else 1

theorem sum_map_set {α : Type*} (f : α → Nat) {l : List α} {i : Nat} {a : α} (a' : α)
    (h : l[i]? = some a) : ((l.set i a').map f).sum + f a = (l.map f).sum + f a' := by
  induction l generalizing i with
  | nil => cases h
  | cons b l ih =>
      cases i with
      | zero =>
          cases h
          rw [List.set_cons_zero, List.map_cons, List.sum_cons, List.map_cons, List.sum_cons]
          omega
      | succ i =>
          have hrest := ih h
          rw [List.set_cons_succ, List.map_cons, List.sum_cons, List.map_cons, List.sum_cons]
          omega

theorem sound_main {requests : List Bytes} (h : ∀ req ∈ requests, req ≠ []) :
    Sound requests (.main requests) where
  reqs := by
    show (requests.map Link.request).map Link.req = requests
    rw [List.map_map]
    exact List.map_id _
  fine := by
    intro l hl
    rcases List.mem_map.mp hl with ⟨req, hreq, rfl⟩
    exact fine_request (h req hreq)
  one := by
    intro i j l l' hl _ hsome
    rcases List.mem_map.mp (List.mem_of_getElem? hl) with ⟨req, _, rfl⟩
    cases hsome
  finished := nofun

/-- The thread is in no handler. -/
theorem not_busy {w : World} (h : w.busy = false) : ∀ l ∈ w.links, l.handler = none := by
  intro l hl
  have hno := List.any_eq_false.mp h l hl
  rwa [Bool.not_eq_true, Option.isSome_eq_false_iff, Option.isNone_iff_eq_none] at hno

/-- A handler is entered by a move of the io_context only. -/
theorem handler_step {l l' : Link} {move : Move} (h : Link.step move l = some l')
    (hmove : move.runsHandler = false) (hsome : l'.handler.isSome) : l.handler.isSome := by
  cases move with
  | resolved ok => cases hmove
  | waitOver wait => cases hmove
  | transfer n =>
      rw [Link.step] at h
      split at h
      · next heq => rw [heq]; rfl
      · next heq => rw [heq]; rfl
      · cases h
  | endOfStream =>
      rw [Link.step] at h
      split at h
      · next heq => rw [heq]; rfl
      · cases h
  | serverRead =>
      rw [Link.step] at h
      split at h
      · simp only [Option.ite_none_right_eq_some, Option.map_eq_some_iff] at h
        rcases h with ⟨_, server, _, rfl⟩
        exact hsome
      · cases h
  | serverWrite n =>
      rw [Link.step] at h
      split at h
      · simp only [Option.ite_none_right_eq_some, Option.map_eq_some_iff] at h
        rcases h with ⟨_, server, _, rfl⟩
        exact hsome
      · cases h

/-- Without a server only the io_context moves a connection. -/
theorem Fine.still {l : Link} (h : Fine l) (hserver : l.server = none) {move : Move}
    (hmove : move.runsHandler = false) : Link.step move l = none := by
  have hhandler : l.handler = none := by
    cases h.phase with
    | resolving _ hhandler _ _ => exact hhandler
    | failed _ hhandler _ _ => exact hhandler
    | waitWrite _ hhandler _ _ => exact hhandler
    | writing _ _ _ _ hechoing => rw [hechoing.accepted] at hserver; cases hserver
    | waitRead _ hhandler _ _ => exact hhandler
    | reading _ _ _ hechoing => rw [hechoing.accepted] at hserver; cases hserver
  cases move with
  | resolved ok => cases hmove
  | waitOver wait => cases hmove
  | transfer n => rw [Link.step, hhandler]
  | endOfStream => rw [Link.step, hhandler]
  | serverRead => rw [Link.step, hserver]
  | serverWrite n => rw [Link.step, hserver]

namespace Sound

variable {requests : List Bytes} {w w' : World}

theorem link (h : Sound requests w) {i : Nat} {l l' : Link} {move : Move}
    (hl : w.links[i]? = some l) (hstep : Link.step move l = some l')
    (hfree : move.runsHandler = true → w.busy = false ∧ w.finished = false) :
    Sound requests { w with links := w.links.set i l' } := by
  have hmoved := (h.fine l (List.mem_of_getElem? hl)).step hstep
  have hlt := (List.getElem?_eq_some_iff.mp hl).1
  have hentered : l'.handler.isSome → ∀ (k : Nat) (l'' : Link), w.links[k]? = some l'' →
      l''.handler.isSome → i = k := by
    intro hsome k l'' hk hsome''
    cases hmove : move.runsHandler with
    | true =>
        rw [not_busy (hfree hmove).1 l'' (List.mem_of_getElem? hk)] at hsome''
        cases hsome''
    | false => exact h.one i k l l'' hl hk (handler_step hstep hmove hsome) hsome''
  constructor
  · show (w.links.set i l').map Link.req = requests
    rw [List.map_set, hmoved.req, ← h.reqs]
    refine List.ext_getElem? fun k => ?_
    by_cases hk : i = k
    · subst hk
      rw [List.getElem?_set_self', List.getElem?_map, hl]
      rfl
    · exact List.getElem?_set_ne hk
  · intro l'' hl''
    rcases List.mem_or_eq_of_mem_set hl'' with hold | rfl
    · exact h.fine l'' hold
    · exact hmoved.fine
  · intro j k lj lk hj hk hsomej hsomek
    by_cases hij : i = j
    · by_cases hik : i = k
      · exact hij.symm.trans hik
      · subst hij
        rw [List.getElem?_set_self hlt] at hj
        rw [List.getElem?_set_ne hik] at hk
        cases hj
        exact hentered hsomej k lk hk hsomek
    · rw [List.getElem?_set_ne hij] at hj
      by_cases hik : i = k
      · subst hik
        rw [List.getElem?_set_self hlt] at hk
        cases hk
        exact (hentered hsomek j lj hj hsomej).symm
      · rw [List.getElem?_set_ne hik] at hk
        exact h.one j k lj lk hj hk hsomej hsomek
  · intro hfinished
    have hserver := h.finished hfinished l (List.mem_of_getElem? hl)
    cases hmove : move.runsHandler with
    | true =>
        have hnot := (hfree hmove).2
        rw [hfinished] at hnot
        cases hnot
    | false =>
        rw [(h.fine l (List.mem_of_getElem? hl)).still hserver hmove] at hstep
        cases hstep

/-- The program ends only when no connection was made. -/
theorem exit (h : Sound requests w) (hdone : w.done = true) :
    Sound requests
      { links := w.links.map fun link => { link with client := link.client.close }
        finished := true } := by
  rw [World.done, Bool.and_eq_true, Bool.not_eq_true', List.all_eq_true] at hdone
  rcases hdone with ⟨hbusy, hall⟩
  have hfailed : ∀ l ∈ w.links, l.client = .new ∧ l.server = none ∧ l.resolving = false := by
    intro l hl
    have hhandler := not_busy hbusy l hl
    have hidle := hall l hl
    rw [Bool.and_eq_true, Bool.not_eq_true', List.isEmpty_iff] at hidle
    rcases hidle with ⟨hno, hwaits⟩
    cases (h.fine l hl).phase with
    | resolving hyes _ _ _ => rw [hno] at hyes; cases hyes
    | failed hno _ hclient hserver => exact ⟨hclient, hserver, hno⟩
    | waitWrite _ _ hclient _ => rw [hclient] at hwaits; cases hwaits
    | writing _ _ hsome _ _ => rw [hhandler] at hsome; cases hsome
    | waitRead _ _ hclient _ => rw [hclient] at hwaits; cases hwaits
    | reading _ hsome _ _ => rw [hhandler] at hsome; cases hsome
  have hmap : (w.links.map fun link => { link with client := link.client.close }) = w.links := by
    refine (List.map_congr_left fun l hl => ?_).trans (List.map_id _)
    rcases l with ⟨req, resolving, client, handler, printed, up, down, server⟩
    have hclient : client = .new := (hfailed _ hl).1
    subst hclient
    rfl
  rw [hmap]
  exact ⟨h.reqs, h.fine, h.one, fun _ l hl => (hfailed l hl).2.1⟩

theorem step (h : Sound requests w) {move : Option (Nat × Move)}
    (hstep : World.step move w = some w') : Sound requests w' ∧ w'.weight < w.weight := by
  cases move with
  | none =>
      rw [World.step, Option.ite_none_right_eq_some, Bool.and_eq_true, Bool.not_eq_true'] at hstep
      rcases hstep with ⟨⟨hdone, hnot⟩, hstep⟩
      cases hstep
      refine ⟨h.exit hdone, ?_⟩
      have hsame : ((w.links.map fun link => { link with client := link.client.close }).map
          Link.weight) = w.links.map Link.weight := by
        rw [List.map_map]
        rfl
      rw [World.weight, World.weight, hsame, hnot]
      exact Nat.lt_succ_self _
  | some move =>
      rcases move with ⟨i, move⟩
      rw [World.step] at hstep
      split at hstep
      · next l hl =>
          rw [Option.ite_none_left_eq_some] at hstep
          rcases hstep with ⟨hfree, hstep⟩
          rcases Option.map_eq_some_iff.mp hstep with ⟨l', hl', rfl⟩
          have hmoved := (h.fine l (List.mem_of_getElem? hl)).step hl'
          constructor
          · refine h.link hl hl' ?_
            intro hmove
            rw [hmove, Bool.true_and, Bool.or_eq_true, not_or, Bool.not_eq_true,
              Bool.not_eq_true] at hfree
            exact hfree
          · have hsum := sum_map_set Link.weight l' hl
            have hlt := hmoved.weight
            have hless : ((w.links.set i l').map Link.weight).sum < (w.links.map Link.weight).sum := by
              omega
            exact Nat.add_lt_add_right hless _
      · cases hstep

/-- When nothing moves, the thread is in a read that has everything. -/
theorem stuck (h : Sound requests w) (hstuck : ∀ move, World.step move w = none)
    (hmade : ∃ l ∈ w.links, l.server.isSome) :
    w.finished = false ∧ ∃ (i : Nat) (l : Link), w.links[i]? = some l ∧
      l.handler = some (.reading l.req) ∧
        ∀ (j : Nat) (l' : Link), w.links[j]? = some l' → l'.handler.isSome → j = i := by
  rcases hmade with ⟨l₀, hl₀, hmade⟩
  have hnot : w.finished = false := by
    cases hfinished : w.finished with
    | false => rfl
    | true =>
        rw [h.finished hfinished l₀ hl₀] at hmade
        cases hmade
  refine ⟨hnot, ?_⟩
  have hmoves : ∀ (i : Nat) (l : Link), w.links[i]? = some l → ∀ move,
      (move.runsHandler = true → w.busy = false) → Link.step move l = none := by
    intro i l hl move hfree
    have hnone := hstuck (some (i, move))
    rw [World.step, hl] at hnone
    dsimp only at hnone
    rw [if_neg] at hnone
    · exact Option.map_eq_none_iff.mp hnone
    · rw [hnot, Bool.or_false, Bool.and_eq_true]
      rintro ⟨hmove, hbusy⟩
      rw [hfree hmove] at hbusy
      cases hbusy
  cases hbusy : w.busy with
  | true =>
      rcases List.any_eq_true.mp hbusy with ⟨l, hl, hsome⟩
      rcases List.getElem?_of_mem hl with ⟨i, hi⟩
      refine ⟨i, l, hi, ?_, fun j l' hj hsome' => h.one j i l' l hj hi hsome' hsome⟩
      have hquiet : ∀ move, move.runsHandler = false → Link.step move l = none :=
        fun move hmove => hmoves i l hi move (fun hyes => nomatch hmove.symm.trans hyes)
      cases (h.fine l hl).phase with
      | resolving _ hhandler _ _ => rw [hhandler] at hsome; cases hsome
      | failed _ hhandler _ _ => rw [hhandler] at hsome; cases hsome
      | waitWrite _ hhandler _ _ => rw [hhandler] at hsome; cases hsome
      | waitRead _ hhandler _ _ => rw [hhandler] at hsome; cases hsome
      | @writing rest transferred server _ hrest hhandler _ _ =>
          have hnone := hquiet (.transfer rest.length) rfl
          have hpos := List.length_pos_iff.mpr hrest
          rw [Link.step, hhandler] at hnone
          dsimp only at hnone
          rw [if_pos ⟨hpos, Nat.le_refl _⟩, if_pos rfl] at hnone
          cases hnone
      | @reading response server _ hhandler _ hechoing =>
          have hdown : l.down = [] := by
            refine Decidable.byContradiction fun hdown => ?_
            have hnone := hquiet (.transfer l.down.length) rfl
            rw [Link.step, hhandler] at hnone
            dsimp only at hnone
            rw [if_pos ⟨List.length_pos_iff.mpr hdown, Nat.le_refl _⟩] at hnone
            cases hnone
          rw [hhandler, (h.fine l hl).quiet hechoing hdown (hquiet .serverRead rfl)
            (fun n => hquiet (.serverWrite n) rfl)]
  | false =>
      -- the thread waits: then some connection can go on
      rcases List.getElem?_of_mem hl₀ with ⟨i, hi⟩
      have hquiet : ∀ move, Link.step move l₀ = none :=
        fun move => hmoves i l₀ hi move (fun _ => hbusy)
      have hhandler := not_busy hbusy l₀ hl₀
      cases (h.fine l₀ hl₀).phase with
      | resolving _ _ _ hnone => rw [hnone] at hmade; cases hmade
      | failed _ _ _ hnone => rw [hnone] at hmade; cases hmade
      | writing _ _ hsome _ _ => rw [hhandler] at hsome; cases hsome
      | reading _ hsome _ _ => rw [hhandler] at hsome; cases hsome
      | waitWrite _ _ hclient _ =>
          have hnone := hquiet (.waitOver .waitWrite)
          rw [Link.step, if_pos (by rw [hclient]; exact List.mem_singleton_self _)] at hnone
          dsimp only at hnone
          rw [if_neg (h.fine l₀ hl₀).req] at hnone
          cases hnone
      | waitRead _ _ hclient hechoing =>
          have hdown : l₀.down = [] := by
            refine Decidable.byContradiction fun hdown => ?_
            have hnone := hquiet (.waitOver .waitRead)
            rw [Link.step, if_pos ⟨by rw [hclient]; exact List.mem_singleton_self _, .inl hdown⟩]
              at hnone
            cases hnone
          have hreq := (h.fine l₀ hl₀).quiet hechoing hdown (hquiet .serverRead)
            (fun n => hquiet (.serverWrite n))
          exact absurd hreq.symm (h.fine l₀ hl₀).req

end Sound

/-- What the client has read, what is under way and what the server holds is the request, in order:
nothing is lost, doubled or taken from another connection. -/
theorem comes_back_in_order {requests : List Bytes} {moves : List (Option (Nat × Move))}
    {w : World} (hreq : ∀ req ∈ requests, req ≠ [])
    (h : Sched.run World.step moves (.main requests) = some w) {i : Nat} {l : Link}
    {response : Bytes} {server : Echo.Connection} (hl : w.links[i]? = some l)
    (hreading : l.handler = some (.reading response)) (hserver : l.server = some server) :
    requests[i]? = some (response ++ l.down ++ server.session.writeBuffer ++ l.up) := by
  have hsound : Sound requests w :=
    Sched.run_invariant (fun _ hsound hstep => (hsound.step hstep).1) h (sound_main hreq)
  have hi : requests[i]? = some l.req := by
    rw [← hsound.reqs, List.getElem?_map, hl]
    rfl
  rw [hi]
  congr 1
  cases (hsound.fine l (List.mem_of_getElem? hl)).phase with
  | resolving _ hhandler _ _ => rw [hreading] at hhandler; cases hhandler
  | failed _ hhandler _ _ => rw [hreading] at hhandler; cases hhandler
  | waitWrite _ hhandler _ _ => rw [hreading] at hhandler; cases hhandler
  | writing _ _ hhandler _ _ => rw [hreading] at hhandler; cases hhandler
  | waitRead _ hhandler _ _ => rw [hreading] at hhandler; cases hhandler
  | reading _ hhandler _ hechoing =>
      rw [hreading] at hhandler
      cases hhandler
      obtain rfl := Option.some.inj (hechoing.accepted.symm.trans hserver)
      rw [hechoing.up, hechoing.echoes.inOrder.bytes, hechoing.down, List.append_nil]

/-- Two bytes of three have been read, and the server holds the third. -/
theorem comes_back_in_order_two : ∃ w l, Sched.run World.step
      [some (0, .resolved true), some (0, .waitOver .waitWrite), some (0, .transfer 3),
        some (0, .serverRead), some (0, .serverWrite 2), some (0, .waitOver .waitRead),
        some (0, .transfer 2)] (.main [[71, 69, 84]]) = some w ∧
    w.links[0]? = some l ∧ l.handler = some (.reading [71, 69]) ∧
      ∃ server, l.server = some server ∧
        [71, 69] ++ l.down ++ server.session.writeBuffer ++ l.up = [71, 69, 84] := by
  have h : Sched.run World.step
      [some (0, .resolved true), some (0, .waitOver .waitWrite), some (0, .transfer 3),
        some (0, .serverRead), some (0, .serverWrite 2), some (0, .waitOver .waitRead),
        some (0, .transfer 2)] (.main [[71, 69, 84]]) = some _ := rfl
  have hreq : ∀ req ∈ [[71, 69, 84]], req ≠ ([] : Bytes) := by
    intro req hmem
    rw [List.mem_singleton.mp hmem]
    nofun
  have hback := comes_back_in_order hreq h (i := 0) rfl rfl rfl
  exact ⟨_, _, h, rfl, rfl, _, rfl, (Option.some.inj hback).symm⟩

end Smoll.Echo.Client
