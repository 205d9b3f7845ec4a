/-
# `Smoll.Echo.EndOfStream` — the peer has finished sending

`asio::read` reads until something goes wrong, so the last bytes of the peer and
the end of its stream can come in one callback.  The session then turns to
writing, but the handler sees the error code and closes the socket:

    onRead success bytes eof     received ++ bytes, nothing written, closed

Nothing happens to a closed connection, so these bytes are never written back
(`received_at_end`).  All that came in earlier callbacks has been, as the
session reads only when its buffer is empty.
-/
import Smoll.Echo.Connection

namespace Smoll.Echo

/-- The callback in which `asio::read` reports the end of the stream, with the bytes it has read. -/
def Callback.endOfStream (readBuffer : List UInt8) : Callback := .read .success readBuffer .eof

theorem received_read (session : Session) (socket : Socket) (readBuffer : List UInt8) :
    (session.read socket readBuffer).2 =
      { socket with received := socket.received ++ readBuffer } := by
  rw [Session.read]
  split
  · rfl
  · rfl

/-- The end of the stream closes the connection, with its last bytes unwritten. -/
theorem Echoes.endOfStream {c d : Connection} (h : Echoes c) {readBuffer : List UInt8}
    (hstep : Connection.step (.endOfStream readBuffer) c = some d) :
    d.socket.isOpen = false ∧ d.waits = [] ∧
      d.socket.received = d.socket.sent ++ readBuffer := by
  have hd : Echoes d := h.step hstep
  rw [Callback.endOfStream, Connection.step] at hstep
  split at hstep
  · rename_i hwait
    cases hstep
    have hstate : c.session.state = .reading := h.state_eq hwait
    have hbuffer : c.session.writeBuffer = [] := h.inOrder.empty.mp hstate
    have hclosed : (Connection.onRead { c with waits := c.waits.erase .waitRead } .success
        readBuffer .eof).socket = (c.session.read c.socket readBuffer).2.close := rfl
    have hopen : (Connection.onRead { c with waits := c.waits.erase .waitRead } .success
        readBuffer .eof).socket.isOpen = false := by
      rw [hclosed]
      rfl
    refine ⟨hopen, ?_, ?_⟩
    · rw [hd.waits, hopen]
      rfl
    · rw [hclosed, received_read]
      show c.socket.received ++ readBuffer = c.socket.sent ++ readBuffer
      rw [h.inOrder.bytes, hbuffer, List.append_nil]
  · cases hstep

/-- Nothing happens without a wait. -/
theorem step_of_no_wait {c : Connection} (h : c.waits = []) (callback : Callback) :
    Connection.step callback c = none := by
  cases callback with
  | read ec readBuffer readEc =>
      rw [Connection.step, h]
      exact if_neg List.not_mem_nil
  | write ec transferred writeEc =>
      rw [Connection.step, h]
      exact if_neg fun hwait => List.not_mem_nil hwait.1

/-- **A run in which the stream has ended.** -/
theorem received_at_end {readBuffer : List UInt8} (callbacks : List Callback) :
    ∀ {c d : Connection}, Echoes c → Sched.run Connection.step callbacks c = some d →
      .endOfStream readBuffer ∈ callbacks →
      d.socket.isOpen = false ∧ d.socket.received = d.socket.sent ++ readBuffer := by
  induction callbacks with
  | nil =>
      intro c d _ _ hmem
      exact absurd hmem List.not_mem_nil
  | cons callback callbacks ih =>
      intro c d hc hrun hmem
      rcases Option.bind_eq_some_iff.mp hrun with ⟨c', hstep, hrest⟩
      rcases List.mem_cons.mp hmem with rfl | hmem
      · rcases hc.endOfStream hstep with ⟨hopen, hwaits, hreceived⟩
        cases callbacks with
        | nil =>
            cases hrest
            exact ⟨hopen, hreceived⟩
        | cons next callbacks =>
            rw [Sched.run_cons, step_of_no_wait hwaits] at hrest
            cases hrest
      · exact ih (hc.step hstep) hrest hmem

/-- **What the peer has sent is echoed when it ends its stream, but for bytes that come with the
end.**  In every run, the bytes that were read are the bytes that were written back whenever the
stream has ended, if and only if no bytes came with the end. -/
theorem echoed_at_end_iff {callbacks : List Callback} {c : Connection}
    (hrun : Sched.run Connection.step callbacks Connection.new.start = some c) :
    (∀ readBuffer, .endOfStream readBuffer ∈ callbacks →
        c.socket.isOpen = false ∧ c.socket.received = c.socket.sent) ↔
      ∀ readBuffer, .endOfStream readBuffer ∈ callbacks → readBuffer = [] := by
  constructor
  · intro h readBuffer hmem
    have hreceived := (received_at_end callbacks echoes_start hrun hmem).2
    rw [(h readBuffer hmem).2] at hreceived
    exact List.self_eq_append_right.mp hreceived
  · intro h readBuffer hmem
    rcases received_at_end callbacks echoes_start hrun hmem with ⟨hopen, hreceived⟩
    rw [h readBuffer hmem, List.append_nil] at hreceived
    exact ⟨hopen, hreceived⟩

/-- `abc` comes, is written back, and then the stream ends. -/
theorem echoed_at_end_abcRun :
    ∃ c, Sched.run Connection.step (abcRun ++ [.endOfStream []]) Connection.new.start = some c ∧
      c.socket.received = c.socket.sent := by
  have hrun : ∃ c, Sched.run Connection.step (abcRun ++ [.endOfStream []])
      Connection.new.start = some c := ⟨_, rfl⟩
  rcases hrun with ⟨c, hrun⟩
  refine ⟨c, hrun, ((echoed_at_end_iff hrun).mpr ?_ [] ?_).2⟩
  · intro readBuffer hmem
    simpa [abcRun, Callback.endOfStream] using hmem
  · exact List.mem_append_right _ (List.mem_singleton_self _)

/-- One byte comes, and the end of the stream with it: no write fails, and nothing is written. -/
theorem not_echoed_at_end :
    (Sched.run Connection.step [.endOfStream [97]] Connection.new.start).map
      (fun c => (c.socket.isOpen, c.socket.received, c.socket.sent)) =
    some (false, [97], []) := rfl

end Smoll.Echo
