/-
# `Smoll.Restinio.Response` — the response the RESTinio clients read

Both clients read until the buffer holds the empty line that ends the header,
and then as long as anything more comes; only behind such a later read is the
buffer handed on. What the first read brought waits for the second: if the
peer has nothing more to send, it is dropped (`whole_response_iff`).
-/
import Smoll.Lib.Receive

namespace Smoll.Restinio

open Smoll.Receive

def endOfHeader : List Char := ['\r', '\n', '\r', '\n']

/-- How the connection ends behind the last piece. -/
inductive Ending where
  | eof
  | error (what : String)
deriving DecidableEq

inductive Thrown where
  /-- from `read_until`, which is given no error code to report to -/
  | readUntil (ending : Ending)
  | readError (what : String)
deriving DecidableEq

/-- `if (!restinio::error_is_eof(error)) throw`. -/
def checkEof : Ending → Option Thrown
  | .eof => none
  | .error what => some (.readError what)

namespace Client

/-- The strings given to `http_parser_execute`: a fresh one in each round, with
all that the buffer holds. Whether the parser takes them changes nothing here. -/
def readLoop : List Char → List (Piece Char) → List (List Char)
  | _, [] => []
  | responseStream, p :: ps => (responseStream ++ p.1) :: readLoop [] ps

/-- `do_request` of `client.cpp`, behind the write of the request. -/
def doRequest (pieces : List (Piece Char)) (ending : Ending) :
    List (List Char) × Option Thrown :=
  match readUntil endOfHeader [] pieces with
  | none => ([], some (.readUntil ending))
  | some (responseStream, pieces) => (readLoop responseStream pieces, checkEof ending)

end Client

namespace CustomHttpMethods

/-- One `sout` for all rounds. -/
def readLoop : List Char → List Char → List (Piece Char) → List Char
  | sout, _, [] => sout
  | sout, responseStream, p :: ps => readLoop (sout ++ (responseStream ++ p.1)) [] ps

/-- `do_request` of `client_custom_http_methods.cpp`. -/
def doRequest (pieces : List (Piece Char)) (ending : Ending) : Except Thrown (List Char) :=
  match readUntil endOfHeader [] pieces with
  | none => .error (.readUntil ending)
  | some (responseStream, pieces) =>
      match checkEof ending with
      | some thrown => .error thrown
      | none => .ok (readLoop [] responseStream pieces)

end CustomHttpMethods

/-! ## What the loops hand on -/

theorem Client.flatten_readLoop (pieces : List (Piece Char)) :
    ∀ responseStream, (Client.readLoop responseStream pieces).flatten =
      if pieces = [] then [] else responseStream ++ content pieces := by
  induction pieces with
  | nil =>
      intro _
      rfl
  | cons p ps ih =>
      intro responseStream
      rw [Client.readLoop, List.flatten_cons, ih [], if_neg (List.cons_ne_nil p ps),
        List.append_assoc]
      cases ps <;> rfl

theorem CustomHttpMethods.readLoop_eq (pieces : List (Piece Char)) :
    ∀ sout responseStream, CustomHttpMethods.readLoop sout responseStream pieces =
      sout ++ (Client.readLoop responseStream pieces).flatten := by
  induction pieces with
  | nil =>
      intro sout _
      exact (List.append_nil sout).symm
  | cons p ps ih =>
      intro sout responseStream
      rw [CustomHttpMethods.readLoop, ih, Client.readLoop, List.flatten_cons, List.append_assoc]

/-- What is handed on is everything, or nothing. -/
theorem flatten_doRequest {pieces : List (Piece Char)} (hend : endOfHeader <:+: content pieces) :
    ∃ handed, Client.doRequest pieces .eof = (handed, none) ∧
      CustomHttpMethods.doRequest pieces .eof = .ok handed.flatten ∧
      handed.flatten =
        if endOfHeader <:+: content pieces.dropLast then content pieces else [] := by
  have hin : endOfHeader <:+: [] ++ content pieces := hend
  rcases readUntil_spec hin with ⟨read, rest, hread, _, hcontent⟩
  have hne : pieces ≠ [] := by
    rintro rfl
    exact absurd (List.infix_nil.mp hend) (List.cons_ne_nil _ _)
  have hrest : rest ≠ [] ↔ endOfHeader <:+: content pieces.dropLast := rest_ne_nil_iff hne hread
  refine ⟨Client.readLoop read rest, ?_, ?_, ?_⟩
  · rw [Client.doRequest, hread]
    rfl
  · rw [CustomHttpMethods.doRequest, hread]
    exact congrArg Except.ok (CustomHttpMethods.readLoop_eq rest [] read)
  · rw [Client.flatten_readLoop]
    by_cases hnil : rest = []
    · have hnot : ¬ endOfHeader <:+: content pieces.dropLast := by
        intro h
        exact hrest.mpr h hnil
      rw [if_pos hnil, if_neg hnot]
    · rw [if_neg hnil, if_pos (hrest.mp hnil)]
      exact hcontent

/-- The bytes received are the bytes handed on exactly when the header is complete
before the last piece comes. -/
theorem whole_response_iff (pieces : List (Piece Char))
    (hend : endOfHeader <:+: content pieces) :
    ((Client.doRequest pieces .eof).1.flatten = content pieces ↔
        endOfHeader <:+: content pieces.dropLast) ∧
      (CustomHttpMethods.doRequest pieces .eof = .ok (content pieces) ↔
        endOfHeader <:+: content pieces.dropLast) := by
  rcases flatten_doRequest hend with ⟨handed, hclient, hcustom, hflatten⟩
  have hne : content pieces ≠ [] := by
    intro hnil
    rw [hnil] at hend
    exact absurd (List.infix_nil.mp hend) (List.cons_ne_nil _ _)
  have hwhole : handed.flatten = content pieces ↔ endOfHeader <:+: content pieces.dropLast := by
    rw [hflatten]
    constructor
    · intro heq
      by_contra hnot
      rw [if_neg hnot] at heq
      exact hne heq.symm
    · intro hin
      exact if_pos hin
  constructor
  · rw [hclient]
    exact hwhole
  · rw [hcustom, Except.ok.injEq]
    exact hwhole

/-- A header, and a body in a piece of its own. -/
def headerThenBody : List (Piece Char) :=
  [⟨"HTTP/1.1 200 OK\r\n\r\n".toList, by decide⟩, ⟨"hi".toList, by decide⟩]

theorem whole_response_iff_headerThenBody :
    (Client.doRequest headerThenBody .eof).1.flatten = "HTTP/1.1 200 OK\r\n\r\nhi".toList ∧
      CustomHttpMethods.doRequest headerThenBody .eof =
        .ok "HTTP/1.1 200 OK\r\n\r\nhi".toList := by
  rcases whole_response_iff headerThenBody (by decide) with ⟨hclient, hcustom⟩
  exact ⟨hclient.mpr (by decide), hcustom.mpr (by decide)⟩

/-- The same response in one piece is lost. -/
theorem not_whole_response :
    ¬ ∀ pieces : List (Piece Char), endOfHeader <:+: content pieces →
        (Client.doRequest pieces .eof).1.flatten = content pieces ∧
          CustomHttpMethods.doRequest pieces .eof = .ok (content pieces) := by
  intro h
  have hone := h [⟨"HTTP/1.1 200 OK\r\n\r\nhi".toList, by decide⟩] (by decide)
  exact absurd hone.1 (by decide)

end Smoll.Restinio
