/-
# `Smoll.Restinio.Request` — the request the RESTinio clients build

Both clients write the request line, the header fields, Connection, and for a
body that is not empty Content-Length, the empty line and the body. The last
thing written is always one more line end: for an empty body it ends the
header, behind a body it is two bytes that belong to no message.

So a request is read back, with nothing left on the connection, exactly for
the empty body, a target on one line and fields a reader takes apart as they
were put together (`reads_back_iff`).
-/
import Smoll.Lib.Http

namespace Smoll.Restinio

open Smoll.Http

/-! ## The clients -/

inductive ConnectionHeader where
  | keepAlive
  | close
  | upgrade
deriving DecidableEq

structure RequestHeader (Method : Type) where
  method : Method
  requestTarget : Text
  httpMajor : Nat
  httpMinor : Nat

/-- The text of a method id: one word. -/
structure MethodText where
  cStr : Text
  space_free : ' ' ∉ cStr
  cr_free : '\r' ∉ cStr

/-- The `switch` over the connection; `upgrade` throws. -/
def connStr : ConnectionHeader → Except String Text
  | .keepAlive => .ok "keep-alive".toList
  | .close => .ok "close".toList
  | .upgrade => .error "upgrade"

def colon : Text := [':', ' ']

def fieldLine (headerField : HeaderField) : Text :=
  headerField.name ++ (colon ++ headerField.value)

def decimal (n : Nat) : Text :=
  Nat.toDigits 10 n

variable {Method : Type}

def requestLine (methodText : Method → MethodText) (header : RequestHeader Method) : Text :=
  (methodText header.method).cStr ++ ' ' :: (header.requestTarget ++ ' ' ::
    (httpName ++ (decimal header.httpMajor ++ '.' :: decimal header.httpMinor)))

/-- The body both clients' `create_http_request` share. -/
def buildRequest (methodText : Method → MethodText) (header : RequestHeader Method)
    (headerFields : List HeaderField) (connection : ConnectionHeader) (body : Text) :
    Except String Text := do
  let request := requestLine methodText header ++ crlf
  let request := request ++ headerFields.flatMap fun headerField => fieldLine headerField ++ crlf
  let connStr ← connStr connection
  let request := request ++ fieldLine ⟨"Connection".toList, connStr⟩ ++ crlf
  let request :=
    if body ≠ [] then
      request ++ fieldLine ⟨"Content-Length".toList, decimal body.length⟩ ++ crlf ++ crlf ++ body
    else
      request
  return request ++ crlf

/-- `client.cpp`: the method is turned into text by restinio. -/
def Client.createHttpRequest (methodToString : Method → MethodText) :
    RequestHeader Method → List HeaderField → ConnectionHeader → Text → Except String Text :=
  buildRequest methodToString

/-- `client_custom_http_methods.cpp`: a method id brings its own text. -/
def CustomHttpMethods.createHttpRequest :
    RequestHeader MethodText → List HeaderField → ConnectionHeader → Text → Except String Text :=
  buildRequest id

/-! ## What a reader should find -/

/-- The fields on the wire: those given, and those the client adds. -/
def wireFields (headerFields : List HeaderField) (connection : ConnectionHeader) (body : Text) :
    List HeaderField :=
  headerFields
    ++ (match connStr connection with
        | .ok value => [⟨"Connection".toList, value⟩]
        | .error _ => [])
    ++ (if body ≠ [] then [⟨"Content-Length".toList, decimal body.length⟩] else [])

def sent (methodText : Method → MethodText) (header : RequestHeader Method)
    (headerFields : List HeaderField) (connection : ConnectionHeader) (body : Text) : Message where
  method := (methodText header.method).cStr
  target := header.requestTarget
  major := header.httpMajor
  minor := header.httpMinor
  fields := wireFields headerFields connection body
  body := body

/-- The request is one message, and nothing is left behind it. -/
def ReadsBack (request : Except String Text) (message : Message) : Prop :=
  ∃ text, request = .ok text ∧ parse text = some (message, [])

/-- The fields a caller may give. -/
structure Allowed (headerField : HeaderField) : Prop where
  name_lines : '\r' ∉ headerField.name ∧ '\n' ∉ headerField.name
  value_lines : '\r' ∉ headerField.value ∧ '\n' ∉ headerField.value
  not_connection : headerField.name.map Char.toLower ≠ "connection".toList
  not_content_length : headerField.name.map Char.toLower ≠ contentLengthName

/-- The name ends at the first colon, and the value has no blanks around it. -/
def Apart (headerField : HeaderField) : Prop :=
  ':' ∉ headerField.name ∧ trim headerField.value = headerField.value

/-! ## The parts -/

theorem not_mem_decimal {c : Char} (hc : c.isDigit = false) (n : Nat) : c ∉ decimal n := by
  intro hmem
  have hdigit : c.isDigit = true := Nat.isDigit_of_mem_toDigits (by omega) (by omega) hmem
  rw [hc] at hdigit
  exact Bool.false_ne_true hdigit

theorem trim_blank (s : Text) : trim (' ' :: s) = trim s :=
  rfl

theorem trim_of_no_blank {s : Text} (hs : ∀ c ∈ s, isBlank c = false) : trim s = s := by
  have hfront : s.dropWhile isBlank = s := by
    cases s with
    | nil => rfl
    | cons c s => rw [List.dropWhile_cons, hs c List.mem_cons_self]; rfl
  rw [trim, hfront, List.rdropWhile_eq_self_iff]
  intro hne
  rw [hs _ (List.getLast_mem hne)]
  exact Bool.false_ne_true

theorem trim_decimal (n : Nat) : trim (decimal n) = decimal n := by
  apply trim_of_no_blank
  intro c hc
  rw [isBlank, Bool.or_eq_false_iff]
  constructor
  · apply beq_false_of_ne
    rintro rfl
    exact not_mem_decimal (by decide) n hc
  · apply beq_false_of_ne
    rintro rfl
    exact not_mem_decimal (by decide) n hc

theorem readField_of_name {headerField : HeaderField} (hname : ':' ∉ headerField.name) :
    readField (fieldLine headerField) = some ⟨headerField.name, trim headerField.value⟩ := by
  have hcut : cutAt ':' (fieldLine headerField) = some (headerField.name, ' ' :: headerField.value) :=
    cutAt_append hname (' ' :: headerField.value)
  rw [readField, hcut]
  exact congrArg some (congrArg (HeaderField.mk headerField.name) (trim_blank headerField.value))

/-- Some field is read, but it ends its name at the first colon. -/
theorem readField_of_colon {headerField : HeaderField} (hname : ':' ∈ headerField.name) :
    ∃ field, readField (fieldLine headerField) = some field ∧ ':' ∉ field.name := by
  rcases List.eq_append_cons_of_mem hname with ⟨a, b, hab, ha⟩
  have hline : fieldLine headerField = a ++ ':' :: (b ++ (colon ++ headerField.value)) := by
    rw [fieldLine, hab, List.append_assoc, List.cons_append]
  have hcut := cutAt_append ha (b ++ (colon ++ headerField.value))
  refine ⟨⟨a, trim (b ++ (colon ++ headerField.value))⟩, ?_, ha⟩
  rw [readField, hline, hcut]
  rfl

/-- What a reader makes of the line of a field. -/
def readBack (headerField : HeaderField) : HeaderField :=
  (readField (fieldLine headerField)).getD ⟨[], []⟩

theorem readField_fieldLine (headerField : HeaderField) :
    readField (fieldLine headerField) = some (readBack headerField) := by
  by_cases hname : ':' ∈ headerField.name
  · rcases readField_of_colon hname with ⟨field, hread, _⟩
    rw [readBack, hread]
    rfl
  · rw [readBack, readField_of_name hname]
    rfl

theorem readBack_eq_iff (headerField : HeaderField) : readBack headerField = headerField ↔ Apart headerField := by
  by_cases hname : ':' ∈ headerField.name
  · rcases readField_of_colon hname with ⟨field, hread, hfield⟩
    constructor
    · intro heq
      rw [readBack, hread] at heq
      have hfieldEq : field = headerField := heq
      rw [hfieldEq] at hfield
      exact absurd hname hfield
    · intro happart
      exact absurd hname happart.1
  · rw [readBack, readField_of_name hname]
    constructor
    · intro heq
      exact ⟨hname, congrArg HeaderField.value heq⟩
    · intro happart
      exact congrArg (HeaderField.mk headerField.name) happart.2

theorem fieldLine_ne_nil (headerField : HeaderField) : fieldLine headerField ≠ [] :=
  List.append_ne_nil_of_right_ne_nil _ (List.cons_ne_nil _ _)

theorem fieldLine_free {headerField : HeaderField} (hname : '\r' ∉ headerField.name)
    (hvalue : '\r' ∉ headerField.value) : ¬ crlf <:+: fieldLine headerField := by
  apply not_infix_of_not_mem
  rw [fieldLine, List.mem_append, List.mem_append]
  rintro (h | h | h)
  · exact hname h
  · exact absurd h (by decide)
  · exact hvalue h

/-! ## The request line -/

section RequestLine

variable (methodText : Method → MethodText) (header : RequestHeader Method)

theorem readVersion_decimal (major minor : Nat) :
    readVersion (httpName ++ (decimal major ++ '.' :: decimal minor)) = some (major, minor) := by
  have hcut := cutAt_append (not_mem_decimal (by decide : '.'.isDigit = false) major) (decimal minor)
  rw [readVersion, Smoll.Search.dropPrefix?_append]
  simp only [Option.bind_eq_bind, Option.bind_some, hcut]
  rw [decimal, decimal, number_toDigits, number_toDigits]
  rfl

theorem readRequestLine_requestLine (htarget : ' ' ∉ header.requestTarget) :
    readRequestLine (requestLine methodText header) =
      some ((methodText header.method).cStr, header.requestTarget,
        header.httpMajor, header.httpMinor) := by
  have hmethod := cutAt_append (methodText header.method).space_free
    (header.requestTarget ++ ' ' ::
      (httpName ++ (decimal header.httpMajor ++ '.' :: decimal header.httpMinor)))
  have hrest := cutAt_append htarget
    (httpName ++ (decimal header.httpMajor ++ '.' :: decimal header.httpMinor))
  rw [readRequestLine, requestLine, hmethod]
  simp only [Option.bind_eq_bind, Option.bind_some, hrest, readVersion_decimal]
  rfl

theorem requestLine_free (htarget : ¬ crlf <:+: header.requestTarget) :
    ¬ crlf <:+: requestLine methodText header := by
  intro hin
  have hspace : ' ' ∉ crlf := by decide
  rcases infix_of_append_cons hspace hin with hmethod | hin
  · exact not_infix_of_not_mem (methodText header.method).cr_free hmethod
  rcases infix_of_append_cons hspace hin with htgt | hversion
  · exact htarget htgt
  have hcr : '\r' ∉ httpName ++ (decimal header.httpMajor ++ '.' :: decimal header.httpMinor) := by
    rw [List.mem_append, List.mem_append, List.mem_cons]
    rintro (h | h | h | h)
    · exact absurd h (by decide)
    · exact not_mem_decimal (by decide) _ h
    · exact absurd h (by decide)
    · exact not_mem_decimal (by decide) _ h
  exact not_infix_of_not_mem hcr hversion

end RequestLine

/-! ## The whole request -/

/-- What is written behind the empty line. -/
def behindHeader (body : Text) : Text :=
  if body ≠ [] then body ++ crlf else []

theorem buildRequest_layout (methodText : Method → MethodText) (header : RequestHeader Method)
    (headerFields : List HeaderField) {connection : ConnectionHeader} {value : Text}
    (hconn : connStr connection = .ok value) (body : Text) :
    buildRequest methodText header headerFields connection body =
      .ok (requestLine methodText header ++ (crlf ++
        ((wireFields headerFields connection body).flatMap (fun f => fieldLine f ++ crlf) ++
          (crlf ++ behindHeader body)))) := by
  rw [buildRequest, wireFields, hconn]
  by_cases hbody : body = []
  · simp only [hbody, ne_eq, not_true_eq_false, if_false, behindHeader, List.append_nil,
      List.flatMap_append, List.flatMap_cons, List.flatMap_nil, List.append_assoc]
    rfl
  · simp only [hbody, ne_eq, not_false_eq_true, if_true, behindHeader,
      List.flatMap_append, List.flatMap_cons, List.flatMap_nil, List.append_nil, List.append_assoc]
    rfl

theorem connStr_lines {connection : ConnectionHeader} {value : Text}
    (hconn : connStr connection = .ok value) : '\r' ∉ value ∧ trim value = value := by
  cases connection with
  | keepAlive => cases hconn; decide
  | close => cases hconn; decide
  | upgrade => cases hconn

/-- The fields the client adds are one line each, and taken apart as they were. -/
theorem added_fields {headerFields : List HeaderField} {connection : ConnectionHeader} {body : Text}
    {value : Text} (hconn : connStr connection = .ok value) :
    ∀ f ∈ wireFields headerFields connection body,
      f ∈ headerFields ∨ ('\r' ∉ f.name ∧ '\r' ∉ f.value ∧ Apart f) := by
  intro f hf
  rw [wireFields, hconn, List.mem_append, List.mem_append] at hf
  rcases hf with (hf | hf) | hf
  · exact Or.inl hf
  · rw [List.mem_singleton] at hf
    subst hf
    rcases connStr_lines hconn with ⟨hcr, htrim⟩
    have hname : '\r' ∉ "Connection".toList ∧ ':' ∉ "Connection".toList := by decide
    exact Or.inr ⟨hname.1, hcr, hname.2, htrim⟩
  · by_cases hbody : body = []
    · rw [if_neg (not_not_intro hbody)] at hf
      cases hf
    · rw [if_pos hbody, List.mem_singleton] at hf
      subst hf
      have hname : '\r' ∉ "Content-Length".toList ∧ ':' ∉ "Content-Length".toList := by decide
      exact Or.inr ⟨hname.1, not_mem_decimal (by decide) _, hname.2, trim_decimal _⟩

theorem contentLength_wireFields {headerFields : List HeaderField} {connection : ConnectionHeader}
    {value : Text} (hconn : connStr connection = .ok value)
    (hallowed : ∀ f ∈ headerFields, Allowed f) (body : Text) :
    contentLength (wireFields headerFields connection body) =
      if body ≠ [] then some (decimal body.length) else none := by
  have hgiven : headerFields.find? (fun f => isContentLength f.name) = none := by
    rw [List.find?_eq_none]
    intro f hf hname
    exact (hallowed f hf).not_content_length (eq_of_beq hname)
  rw [contentLength, wireFields, hconn, List.append_assoc, List.find?_append, hgiven]
  by_cases hbody : body = []
  · rw [if_neg (not_not_intro hbody), if_neg (not_not_intro hbody)]
    rfl
  · rw [if_pos hbody, if_pos hbody]
    rfl

/-- The body is found, with a line end behind it. -/
theorem readBody_wireFields {headerFields : List HeaderField} {connection : ConnectionHeader}
    {value : Text} (hconn : connStr connection = .ok value)
    (hallowed : ∀ f ∈ headerFields, Allowed f) (body : Text) :
    readBody (wireFields headerFields connection body) (behindHeader body) =
      some (body, if body ≠ [] then crlf else []) := by
  rw [readBody, contentLength_wireFields hconn hallowed, behindHeader]
  by_cases hbody : body = []
  · simp only [hbody, ne_eq, not_true_eq_false, if_false]
  · have hle : body.length ≤ (body ++ crlf).length := by
      rw [List.length_append]
      omega
    have hsplit : (body ++ crlf).splitAt body.length = (body, crlf) := by
      rw [List.splitAt_eq, List.take_left, List.drop_left]
    simp only [hbody, ne_eq, not_false_eq_true, if_true, decimal, number_toDigits,
      Option.bind_eq_bind, Option.bind_some, if_pos hle, hsplit]
    rfl

section ReadsBack

variable (methodText : Method → MethodText) (header : RequestHeader Method)
  (headerFields : List HeaderField) (connection : ConnectionHeader) (body : Text)

/-- What a reader gets for a target that stays on one line. -/
theorem parse_buildRequest {value : Text} (hconn : connStr connection = .ok value)
    (hspace : ' ' ∉ header.requestTarget) (hallowed : ∀ f ∈ headerFields, Allowed f)
    (htarget : ¬ crlf <:+: header.requestTarget) :
    parse (requestLine methodText header ++ (crlf ++
        ((wireFields headerFields connection body).flatMap (fun f => fieldLine f ++ crlf) ++
          (crlf ++ behindHeader body)))) =
      (readBody ((wireFields headerFields connection body).map readBack) (behindHeader body)).map
        fun (b, rest) =>
          (⟨(methodText header.method).cStr, header.requestTarget, header.httpMajor,
            header.httpMinor, (wireFields headerFields connection body).map readBack, b⟩, rest) := by
  refine parse_layout (requestLine_free methodText header htarget)
    (readRequestLine_requestLine methodText header hspace) ?_ (behindHeader body)
  intro f hf
  refine ⟨fieldLine_ne_nil f, ?_, readField_fieldLine f⟩
  rcases added_fields hconn f hf with hgiven | ⟨hname, hvalue, _⟩
  · exact fieldLine_free (hallowed f hgiven).name_lines.1 (hallowed f hgiven).value_lines.1
  · exact fieldLine_free hname hvalue

theorem readsBack_buildRequest_iff (hspace : ' ' ∉ header.requestTarget)
    (hallowed : ∀ f ∈ headerFields, Allowed f) (hconnection : connection ≠ .upgrade) :
    ReadsBack (buildRequest methodText header headerFields connection body)
        (sent methodText header headerFields connection body) ↔
      body = [] ∧ ¬ crlf <:+: header.requestTarget ∧ ∀ f ∈ headerFields, Apart f := by
  obtain ⟨value, hconn⟩ : ∃ value, connStr connection = .ok value := by
    cases connection with
    | keepAlive => exact ⟨_, rfl⟩
    | close => exact ⟨_, rfl⟩
    | upgrade => exact absurd rfl hconnection
  have hlayout := buildRequest_layout methodText header headerFields hconn body
  have hread := readBody_wireFields hconn hallowed body
  constructor
  · rintro ⟨text, htext, hparse⟩
    rw [hlayout] at htext
    cases htext
    have htarget : ¬ crlf <:+: header.requestTarget := target_free_of_parse hparse
    rw [parse_buildRequest methodText header headerFields connection body hconn hspace hallowed
      htarget] at hparse
    rcases Option.map_eq_some_iff.mp hparse with ⟨⟨b, rest⟩, hbody, heq⟩
    rcases Prod.mk.inj heq with ⟨hmessage, hrest⟩
    have hfields : (wireFields headerFields connection body).map readBack =
        wireFields headerFields connection body := congrArg Message.fields hmessage
    rw [hfields, hread] at hbody
    refine ⟨?_, htarget, ?_⟩
    · by_contra hne
      rw [if_pos hne] at hbody
      have hcrlf : crlf = rest := (Prod.mk.inj (Option.some.inj hbody)).2
      exact absurd (hcrlf.trans hrest) (List.cons_ne_nil _ _)
    · intro f hf
      have hmem : f ∈ wireFields headerFields connection body := by
        rw [wireFields, List.append_assoc]
        exact List.mem_append_left _ hf
      exact (readBack_eq_iff f).mp (List.map_inj_left.mp (hfields.trans (List.map_id _).symm) f hmem)
  · rintro ⟨hbody, htarget, hapart⟩
    refine ⟨_, hlayout, ?_⟩
    have hfields : (wireFields headerFields connection body).map readBack =
        wireFields headerFields connection body := by
      rw [List.map_congr_left, List.map_id]
      intro f hf
      apply (readBack_eq_iff f).mpr
      rcases added_fields hconn f hf with hgiven | ⟨_, _, h⟩
      · exact hapart f hgiven
      · exact h
    rw [parse_buildRequest methodText header headerFields connection body hconn hspace hallowed
      htarget, hfields, hread, if_neg (not_not_intro hbody)]
    rfl

end ReadsBack

/-- Exactly the requests without a body, with a target on one line and fields
that come apart as they were put together, are one message. -/
theorem reads_back_iff (methodToString : Method → MethodText) (headerFields : List HeaderField)
    (connection : ConnectionHeader) (body : Text) (hallowed : ∀ f ∈ headerFields, Allowed f)
    (hconnection : connection ≠ .upgrade) :
    (∀ header : RequestHeader Method, ' ' ∉ header.requestTarget →
      (ReadsBack (Client.createHttpRequest methodToString header headerFields connection body)
          (sent methodToString header headerFields connection body) ↔
        body = [] ∧ ¬ crlf <:+: header.requestTarget ∧ ∀ f ∈ headerFields, Apart f)) ∧
    ∀ header : RequestHeader MethodText, ' ' ∉ header.requestTarget →
      (ReadsBack (CustomHttpMethods.createHttpRequest header headerFields connection body)
          (sent id header headerFields connection body) ↔
        body = [] ∧ ¬ crlf <:+: header.requestTarget ∧ ∀ f ∈ headerFields, Apart f) := by
  constructor
  · intro header hspace
    exact readsBack_buildRequest_iff methodToString header headerFields connection body hspace
      hallowed hconnection
  · intro header hspace
    exact readsBack_buildRequest_iff id header headerFields connection body hspace hallowed
      hconnection

def get : MethodText := ⟨"GET".toList, by decide, by decide⟩

def post : MethodText := ⟨"POST".toList, by decide, by decide⟩

/-- `GET / HTTP/1.1` with one field. -/
def getRoot : RequestHeader MethodText := ⟨get, ['/'], 1, 1⟩

def accept : HeaderField := ⟨"Accept".toList, "*/*".toList⟩

theorem accept_allowed : Allowed accept :=
  ⟨by decide, by decide, by decide, by decide⟩

theorem reads_back_iff_getRoot :
    ReadsBack (Client.createHttpRequest id getRoot [accept] .keepAlive [])
        (sent id getRoot [accept] .keepAlive []) ∧
      ReadsBack (CustomHttpMethods.createHttpRequest getRoot [accept] .keepAlive [])
        (sent id getRoot [accept] .keepAlive []) := by
  have hallowed : ∀ f ∈ [accept], Allowed f := by
    intro f hf
    rw [List.mem_singleton.mp hf]
    exact accept_allowed
  have hmeets : ([] : Text) = [] ∧ ¬ crlf <:+: getRoot.requestTarget ∧ ∀ f ∈ [accept], Apart f := by
    refine ⟨rfl, by decide, ?_⟩
    intro f hf
    rw [List.mem_singleton.mp hf]
    exact ⟨by decide, by decide⟩
  rcases reads_back_iff id [accept] .keepAlive [] hallowed (fun h => by cases h) with ⟨hclient, hcustom⟩
  exact ⟨(hclient getRoot (by decide)).mpr hmeets, (hcustom getRoot (by decide)).mpr hmeets⟩

/-- Behind the body `a` of a `POST` two bytes are left in front of the next request. -/
theorem not_reads_back :
    ¬ ∀ (header : RequestHeader MethodText) (headerFields : List HeaderField)
        (connection : ConnectionHeader) (body : Text), ' ' ∉ header.requestTarget →
        (∀ f ∈ headerFields, Allowed f) → connection ≠ .upgrade →
        ReadsBack (Client.createHttpRequest id header headerFields connection body)
            (sent id header headerFields connection body) ∧
          ReadsBack (CustomHttpMethods.createHttpRequest header headerFields connection body)
            (sent id header headerFields connection body) := by
  intro h
  have hpost := h ⟨post, ['/'], 1, 1⟩ [] .keepAlive ['a'] (by decide) (fun _ hf => by cases hf)
    (fun h => by cases h)
  rcases hpost with ⟨⟨text, htext, hparse⟩, _⟩
  cases htext
  revert hparse
  decide

end Smoll.Restinio
