/-
# `Smoll.Lib.Receive` — reading a connection piece by piece

What a peer sends arrives in pieces, none of them empty, wherever the network
cuts it. Reading takes the pieces one at a time and puts them behind what a
buffer holds:

    readUntil    until the buffer holds the delimiter; nothing if the
                 connection ends first

The buffer is asked before each piece, so it may hold more than the delimiter,
but no piece is taken that is not needed: something is left to be received
exactly when the delimiter is complete before the last piece
(`rest_ne_nil_iff`).
-/
import Mathlib.Data.List.Infix

namespace Smoll.Receive

variable {α : Type}

/-- What one receive brings. -/
abbrev Piece (α : Type) := { bytes : List α // bytes ≠ [] }

def content (pieces : List (Piece α)) : List α :=
  pieces.flatMap Subtype.val

variable [DecidableEq α]

def readUntil (delim : List α) : List α → List (Piece α) → Option (List α × List (Piece α))
  | buffer, [] => if delim <:+: buffer then some (buffer, []) else none
  | buffer, p :: ps =>
      if delim <:+: buffer then some (buffer, p :: ps) else readUntil delim (buffer ++ p.1) ps

variable {delim : List α}

/-- Reading ends where the delimiter comes, and loses nothing. -/
theorem readUntil_spec {pieces : List (Piece α)} :
    ∀ {buffer : List α}, delim <:+: buffer ++ content pieces →
      ∃ read rest, readUntil delim buffer pieces = some (read, rest) ∧ delim <:+: read ∧
        read ++ content rest = buffer ++ content pieces := by
  induction pieces with
  | nil =>
      intro buffer hin
      have hbuffer : delim <:+: buffer := by
        rw [content, List.flatMap_nil, List.append_nil] at hin
        exact hin
      exact ⟨buffer, [], if_pos hbuffer, hbuffer, rfl⟩
  | cons p ps ih =>
      intro buffer hin
      by_cases hbuffer : delim <:+: buffer
      · exact ⟨buffer, p :: ps, if_pos hbuffer, hbuffer, rfl⟩
      · have hcons : buffer ++ content (p :: ps) = (buffer ++ p.1) ++ content ps := by
          rw [content, List.flatMap_cons, List.append_assoc]
          rfl
        rw [hcons] at hin
        rcases ih hin with ⟨read, rest, hread, hdelim, hcontent⟩
        refine ⟨read, rest, ?_, hdelim, hcontent.trans hcons.symm⟩
        rw [readUntil, if_neg hbuffer]
        exact hread

theorem rest_ne_nil_iff {pieces : List (Piece α)} :
    ∀ {buffer read : List α} {rest : List (Piece α)}, pieces ≠ [] →
      readUntil delim buffer pieces = some (read, rest) →
      (rest ≠ [] ↔ delim <:+: buffer ++ content pieces.dropLast) := by
  induction pieces with
  | nil =>
      intro buffer read rest hne
      exact absurd rfl hne
  | cons p ps ih =>
      intro buffer read rest _ hread
      rw [readUntil] at hread
      by_cases hbuffer : delim <:+: buffer
      · rw [if_pos hbuffer] at hread
        cases hread
        constructor
        · intro _
          exact hbuffer.trans (List.prefix_append _ _).isInfix
        · intro _
          exact List.cons_ne_nil _ _
      · rw [if_neg hbuffer] at hread
        cases ps with
        | nil =>
            -- the last piece: nothing can be left behind it
            have hrest : rest = [] := by
              rw [readUntil] at hread
              split at hread
              · cases hread
                rfl
              · cases hread
            have hdrop : buffer ++ content [p].dropLast = buffer := List.append_nil buffer
            rw [hdrop, hrest]
            constructor
            · intro h
              exact absurd rfl h
            · intro h
              exact absurd h hbuffer
        | cons q qs =>
            rw [ih (List.cons_ne_nil q qs) hread, List.append_assoc]
            rfl

end Smoll.Receive
