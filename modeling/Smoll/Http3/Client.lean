/-
# `Smoll.Http3.Client` — the HTTP/3 client

One QUIC connection carries all requests, each on a stream of its own, and
websockets and pushed responses besides.  The client keeps four dictionaries,

    _request_events    the events of each request that is not answered
    _request_waiter    the future its coroutine waits for
    _websockets        by the stream they were opened on
    pushes             by push id

and `http_event_received` looks an event up in them, one after another.

A run is any sequence of moves: a coroutine asks for a URL, or opens a
websocket, on the stream that the connection gives it next; an event comes; a
coroutine goes on whose future is set; a websocket is sent something, taken
something from, or closed; and when no coroutine is left the pushes are written.
What aioquic and wsproto do is left open (`Outside`), and so is what `open`
makes of a path, each time.
-/
import Smoll.Lib.OrderedDict
import Smoll.Lib.Sched

namespace Smoll.Http3

open OrderedDict

abbrev Bytes := List UInt8

abbrev Text := List Char

/-- `str.encode()` -/
def encode (s : Text) : Bytes := (String.ofList s).toUTF8.toList

/-- `bytes.decode()`, which raises where this is `none`. -/
def decode (b : Bytes) : Option Text := (String.fromUTF8? ⟨b.toArray⟩).map String.toList

inductive PyError where
  | keyError
  | invalidState
  | unicodeDecode
  | wsproto (message : Text)
  | urlparse (message : Text)
  | opening (message : Text)
  | zeroDivision
  deriving DecidableEq

/-! ## Outside -/

/-- What `urlparse` gives. -/
structure ParseResult where
  scheme : Text
  netloc : Text
  path : Text
  query : Text
  deriving DecidableEq

inductive WsEvent where
  | textMessage (data : Text)
  | other
  deriving DecidableEq

/-- What the client uses of `urllib`, aioquic and wsproto; `WS` is a `wsproto.Connection`. -/
structure Outside (WS : Type) where
  urlparse : Text → Except Text ParseResult
  /-- `aioquic.__version__` -/
  version : Text
  connection : WS
  sendText : WS → Text → Except Text (Bytes × WS)
  sendClose : WS → Nat → Text → Except Text (Bytes × WS)
  receiveData : WS → Bytes → Except Text WS
  /-- the events that wait, taken out -/
  events : WS → List WsEvent × WS

/-- What `open(path, "wb")` raises at some moment, if it does. -/
abbrev Files := Text → Option Text

/-- The events of `aioquic.h3.events`. -/
inductive H3Event where
  | headersReceived (headers : List (Bytes × Bytes)) (streamId : Nat) (streamEnded : Bool)
      (pushId : Option Nat)
  | dataReceived (data : Bytes) (streamId : Nat) (streamEnded : Bool) (pushId : Option Nat)
  | pushPromiseReceived (headers : List (Bytes × Bytes)) (pushId : Nat) (streamId : Nat)
  | other
  deriving DecidableEq

/-- A call of `send_headers` or `send_data`. -/
inductive Frame where
  | headers (streamId : Nat) (headers : List (Bytes × Bytes))
  | data (streamId : Nat) (data : Bytes) (endStream : Bool)
  deriving DecidableEq

def Frame.streamId : Frame → Nat
  | .headers streamId _ | .data streamId _ _ => streamId

/-! ## The source -/

structure URL where
  authority : Text
  fullPath : Text
  scheme : Text

structure HttpRequest where
  method : Text
  url : URL
  content : Bytes
  headers : List (Text × Text)

structure WebSocket (WS : Type) where
  queue : List Text
  subprotocol : Option Text
  websocket : WS

variable {WS : Type}

section Source

variable (out : Outside WS)

def URL.parse (url : Text) : Except PyError URL :=
  match out.urlparse url with
  | .error message => .error (.urlparse message)
  | .ok parsed => .ok
    { authority := parsed.netloc
      fullPath := if parsed.query ≠ [] then parsed.path ++ '?' :: parsed.query else parsed.path
      scheme := parsed.scheme }

def userAgent : Text := "aioquic/".toList ++ out.version

namespace WebSocket

/-- `__init__` -/
def new : WebSocket WS := ⟨[], none, out.connection⟩

def websocketEventReceived (self : WebSocket WS) : WsEvent → WebSocket WS
  | .textMessage data => { self with queue := self.queue ++ [data] }
  | .other => self

/-- The loop over the headers. -/
def subprotocolOf (self : WebSocket WS) : List (Bytes × Bytes) → WebSocket WS × Option PyError
  | [] => (self, none)
  | (header, value) :: headers =>
      if header = encode "sec-websocket-protocol".toList then
        match decode value with
        | some subprotocol => subprotocolOf { self with subprotocol := some subprotocol } headers
        | none => (self, some .unicodeDecode)
      else subprotocolOf self headers

/-- The loop over the events of wsproto. -/
def drain (self : WebSocket WS) : WebSocket WS :=
  let taken := out.events self.websocket
  taken.1.foldl websocketEventReceived { self with websocket := taken.2 }

def httpEventReceived (self : WebSocket WS) (event : H3Event) : WebSocket WS × Option PyError :=
  match event with
  | .headersReceived headers _ _ _ =>
      match self.subprotocolOf headers with
      | (self, none) => (self.drain out, none)
      | (self, some e) => (self, some e)
  | .dataReceived data _ _ _ =>
      match out.receiveData self.websocket data with
      | .ok websocket => (drain out { self with websocket }, none)
      | .error message => (self, some (.wsproto message))
  | _ => (self.drain out, none)

end WebSocket

/-- The fields of the class, and the futures made for it: one for each request, set or not. -/
structure HttpClient (WS : Type) where
  pushes : List (Nat × List H3Event)
  requestEvents : List (Nat × List H3Event)
  requestWaiter : List (Nat × Nat)
  websockets : List (Nat × WebSocket WS)
  futures : List (Option (List H3Event))

namespace HttpClient

/-- `future.set_result(...)` -/
def setResult (self : HttpClient WS) (waiter : Nat) (result : List H3Event) :
    HttpClient WS × Option PyError :=
  match self.futures[waiter]? with
  | some none => ({ self with futures := self.futures.set waiter (some result) }, none)
  | _ => (self, some .invalidState)

/-- The branch for headers and data. -/
def received (self : HttpClient WS) (event : H3Event) (streamId : Nat) (streamEnded : Bool)
    (pushId : Option Nat) : HttpClient WS × Option PyError :=
  match self.requestEvents.lookup streamId with
  | some events =>
      -- http
      let self := { self with requestEvents := set self.requestEvents streamId (events ++ [event]) }
      if streamEnded then
        match self.requestWaiter.lookup streamId with
        | none => (self, some .keyError)
        | some waiter =>
            let self := { self with
              requestWaiter := pop self.requestWaiter streamId
              requestEvents := pop self.requestEvents streamId }
            self.setResult waiter (events ++ [event])
      else (self, none)
  | none =>
      match self.websockets.lookup streamId with
      | some websocket =>
          -- websocket
          let done := websocket.httpEventReceived out event
          ({ self with websockets := set self.websockets streamId done.1 }, done.2)
      | none =>
          -- push; `None` is no key
          match pushId with
          | none => (self, none)
          | some pushId =>
              match self.pushes.lookup pushId with
              | some events =>
                  ({ self with pushes := set self.pushes pushId (events ++ [event]) }, none)
              | none => (self, none)

def httpEventReceived (self : HttpClient WS) (event : H3Event) : HttpClient WS × Option PyError :=
  match event with
  | .headersReceived _ streamId streamEnded pushId | .dataReceived _ streamId streamEnded pushId =>
      self.received out event streamId streamEnded pushId
  | .pushPromiseReceived _ pushId _ =>
      let self := { self with pushes := set self.pushes pushId [] }
      ({ self with pushes := set self.pushes pushId [event] }, none)
  | .other => (self, none)

end HttpClient

/-! ## The coroutines -/

/-- `perform_http_request`: what it was called with, the stream of its request, and whether it has
come to its end. -/
structure Task where
  url : Text
  data : Option Text
  streamId : Nat
  finished : Bool
  deriving DecidableEq

/-- The client, the streams it has opened and what it has sent on them; the coroutines, in the
order of their futures; the files that were written, one after another; what `recv` returned, by
stream; and what was raised on an event, and in a coroutine. -/
structure State (WS : Type) where
  client : HttpClient WS
  opened : List Nat
  sent : List Frame
  tasks : List Task
  written : List (Text × Bytes)
  received : List (Nat × Text)
  raised : List PyError
  failed : List PyError

/-- The request of `get` or `post` -/
def httpRequest (url : URL) (data : Option Text) : HttpRequest :=
  match data with
  | none => ⟨"GET".toList, url, [], []⟩
  | some data =>
      ⟨"POST".toList, url, encode data,
        [("content-type".toList, "application/x-www-form-urlencoded".toList)]⟩

def requestHeaders (request : HttpRequest) : List (Bytes × Bytes) :=
  [(encode ":method".toList, encode request.method),
    (encode ":scheme".toList, encode request.url.scheme),
    (encode ":authority".toList, encode request.url.authority),
    (encode ":path".toList, encode request.url.fullPath),
    (encode "user-agent".toList, encode (userAgent out))] ++
    request.headers.map fun header => (encode header.1, encode header.2)

def websocketHeaders (url : URL) (subprotocols : List Text) : List (Bytes × Bytes) :=
  [(encode ":method".toList, encode "CONNECT".toList),
    (encode ":scheme".toList, encode "https".toList),
    (encode ":authority".toList, encode url.authority),
    (encode ":path".toList, encode url.fullPath),
    (encode ":protocol".toList, encode "websocket".toList),
    (encode "user-agent".toList, encode (userAgent out)),
    (encode "sec-websocket-version".toList, encode "13".toList)] ++
    if subprotocols ≠ [] then
      [(encode "sec-websocket-protocol".toList, encode (", ".toList.intercalate subprotocols))]
    else []

/-- What a file is written with. -/
structure Config where
  includeHeaders : Bool
  outputDir : Option Text

/-- One event in `write_response`. -/
def responseOf (includeHeaders : Bool) : H3Event → Bytes
  | .headersReceived headers _ _ _ =>
      if includeHeaders then
        let lines := headers.flatMap fun header =>
          header.1 ++ encode ": ".toList ++ header.2 ++ encode "\r\n".toList
        if lines ≠ [] then lines ++ encode "\r\n".toList else []
      else []
  | .dataReceived data _ _ _ => data
  | _ => []

/-- `write_response`, into an empty file. -/
def writeResponse (includeHeaders : Bool) (httpEvents : List H3Event) : Bytes :=
  httpEvents.flatMap (responseOf includeHeaders)

/-- `os.path.basename` -/
def basename (path : Text) : Text := (path.reverse.takeWhile (· ≠ '/')).reverse

/-- `os.path.join`, with a name behind that has no slash in front. -/
def join (directory name : Text) : Text :=
  if directory = [] ∨ directory.getLast? = some '/' then directory ++ name
  else directory ++ '/' :: name

/-- `os.path.join(output_dir, os.path.basename(path) or "index.html")` -/
def pathIn (outputDir path : Text) : Text :=
  let name := basename path
  join outputDir (if name ≠ [] then name else "index.html".toList)

/-- Where the response for a URL goes. -/
def outputPath (outputDir url : Text) : Option Text :=
  (out.urlparse url).toOption.map fun parsed => pathIn outputDir parsed.path

/-- The output of a response: the file that is written, if one is. -/
def outputResponse (cfg : Config) (files : Files) (path : Text) (httpEvents : List H3Event) :
    Except PyError (List (Text × Bytes)) :=
  match cfg.outputDir with
  | none => .ok []
  | some outputDir =>
      match files (pathIn outputDir path) with
      | some message => .error (.opening message)
      | none => .ok [(pathIn outputDir path, writeResponse cfg.includeHeaders httpEvents)]

/-- `perform_http_request`, behind its `await`.  The speed is divided by the time `elapsed`. -/
def performed (cfg : Config) (files : Files) (elapsed : Int) (url : Text)
    (httpEvents : List H3Event) : Except PyError (List (Text × Bytes)) :=
  match out.urlparse url with
  | .error message => .error (.urlparse message)
  | .ok parsed =>
      if elapsed = 0 then .error .zeroDivision
      else outputResponse cfg files parsed.path httpEvents

/-- The loop over the headers of a promise, for its method and path. -/
def promised : List (Bytes × Bytes) → Text × Text → Except PyError (Text × Text)
  | [], got => .ok got
  | (header, value) :: headers, (method, path) =>
      if header = encode ":method".toList then
        match decode value with
        | some method => promised headers (method, path)
        | none => .error .unicodeDecode
      else if header = encode ":path".toList then
        match decode value with
        | some path => promised headers (method, path)
        | none => .error .unicodeDecode
      else promised headers (method, path)

/-- The loop over the events of a push. -/
def described : List H3Event → Text × Text → Except PyError (Text × Text)
  | [], got => .ok got
  | .pushPromiseReceived headers _ _ :: httpEvents, got =>
      match promised headers got with
      | .ok got => described httpEvents got
      | .error e => .error e
  | _ :: httpEvents, got => described httpEvents got

/-- One push in `process_http_pushes`. -/
def processHttpPush (cfg : Config) (files : Files) (httpEvents : List H3Event) :
    Except PyError (List (Text × Bytes)) :=
  match described httpEvents ([], []) with
  | .error e => .error e
  | .ok (_, path) => outputResponse cfg files path httpEvents

/-- `process_http_pushes`: the files it writes, and what stops it. -/
def processHttpPushes (cfg : Config) (files : Files) :
    List (Nat × List H3Event) → List (Text × Bytes) × Option PyError
  | [] => ([], none)
  | (_, httpEvents) :: pushes =>
      match processHttpPush cfg files httpEvents with
      | .error e => ([], some e)
      | .ok written =>
          let rest := processHttpPushes cfg files pushes
          (written ++ rest.1, rest.2)

namespace State

/-- `_request`, as far as its `await`. -/
def request (self : State WS) (url : Text) (parsed : URL) (data : Option Text) (streamId : Nat) :
    State WS :=
  let request := httpRequest parsed data
  { self with
    opened := self.opened ++ [streamId]
    sent := self.sent ++
      [.headers streamId (requestHeaders out request), .data streamId request.content true]
    client := { self.client with
      futures := self.client.futures ++ [none]
      requestEvents := set self.client.requestEvents streamId []
      requestWaiter := set self.client.requestWaiter streamId self.client.futures.length }
    tasks := self.tasks ++ [⟨url, data, streamId, false⟩] }

def websocket (self : State WS) (url : URL) (subprotocols : List Text) (streamId : Nat) :
    State WS :=
  { self with
    opened := self.opened ++ [streamId]
    sent := self.sent ++ [.headers streamId (websocketHeaders out url subprotocols)]
    client := { self.client with
      websockets := set self.client.websockets streamId (WebSocket.new out) } }

def event (self : State WS) (event : H3Event) : State WS :=
  let done := self.client.httpEventReceived out event
  { self with client := done.1, raised := self.raised ++ done.2.toList }

/-- A coroutine goes on behind its `await`, and comes to its end. -/
def finish (cfg : Config) (self : State WS) (i : Nat) (task : Task) (httpEvents : List H3Event)
    (files : Files) (elapsed : Int) : State WS :=
  let self := { self with tasks := self.tasks.set i { task with finished := true } }
  match performed out cfg files elapsed task.url httpEvents with
  | .error e => { self with failed := self.failed ++ [e] }
  | .ok written => { self with written := self.written ++ written }

/-- The end of `run`. -/
def pushes (cfg : Config) (self : State WS) (files : Files) : State WS :=
  let done := processHttpPushes cfg files self.client.pushes
  { self with written := self.written ++ done.1, failed := self.failed ++ done.2.toList }

/-- What `websocket.send` made of a message or a closing handshake, handed on. -/
def transmit (self : State WS) (streamId : Nat) (websocket : WebSocket WS)
    (made : Except Text (Bytes × WS)) (endStream : Bool) : State WS :=
  match made with
  | .error message => { self with failed := self.failed ++ [.wsproto message] }
  | .ok (data, connection) =>
      { self with
        sent := self.sent ++ [.data streamId data endStream]
        client := { self.client with
          websockets :=
            set self.client.websockets streamId { websocket with websocket := connection } } }

def init : State WS := ⟨⟨[], [], [], [], []⟩, [], [], [], [], [], [], []⟩

end State

inductive Move where
  | request (url : Text) (data : Option Text) (streamId : Nat)
  | websocket (url : Text) (subprotocols : List Text) (streamId : Nat)
  | noUrl (url : Text)
  | event (event : H3Event)
  | finish (i : Nat) (files : Files) (elapsed : Int)
  | pushes (files : Files)
  | recv (streamId : Nat)
  | send (streamId : Nat) (message : Text)
  | close (streamId : Nat) (code : Nat) (reason : Text)

/-- A stream is opened once, for a URL that can be parsed, and no stream for one that cannot; a
coroutine goes on when its future is set; the pushes are written when `gather` returns, with every
coroutine at its end and none failed; `recv` returns when a message is there. -/
def step (cfg : Config) : Move → State WS → Option (State WS)
  | .request url data streamId, s =>
      match URL.parse out url with
      | .error _ => none
      | .ok parsed =>
          if streamId ∈ s.opened then none else some (s.request out url parsed data streamId)
  | .websocket url subprotocols streamId, s =>
      match URL.parse out url with
      | .error _ => none
      | .ok parsed =>
          if streamId ∈ s.opened then none else some (s.websocket out parsed subprotocols streamId)
  | .noUrl url, s =>
      match URL.parse out url with
      | .error e => some { s with failed := s.failed ++ [e] }
      | .ok _ => none
  | .event event, s => some (s.event out event)
  | .finish i files elapsed, s =>
      match s.tasks[i]?, s.client.futures[i]? with
      | some task, some (some httpEvents) =>
          if task.finished then none else some (s.finish out cfg i task httpEvents files elapsed)
      | _, _ => none
  | .pushes files, s =>
      if s.tasks.all Task.finished ∧ s.failed = [] then some (s.pushes cfg files) else none
  | .recv streamId, s =>
      match s.client.websockets.lookup streamId with
      | some ⟨message :: queue, subprotocol, websocket⟩ =>
          some { s with
            received := s.received ++ [(streamId, message)]
            client := { s.client with
              websockets :=
                set s.client.websockets streamId ⟨queue, subprotocol, websocket⟩ } }
      | _ => none
  | .send streamId message, s =>
      (s.client.websockets.lookup streamId).map fun websocket =>
        s.transmit streamId websocket (out.sendText websocket.websocket message) false
  | .close streamId code reason, s =>
      (s.client.websockets.lookup streamId).map fun websocket =>
        s.transmit streamId websocket (out.sendClose websocket.websocket code reason) true

end Source

/-! ## A plain outside -/

/-- `urlparse` of `scheme://netloc/path?query`; a bracket in the host is not closed. -/
def plainParse (url : Text) : Except Text ParseResult :=
  let rest := (url.dropWhile (· ≠ ':')).drop 3
  let target := rest.dropWhile (· ≠ '/')
  let netloc := rest.takeWhile (· ≠ '/')
  if '[' ∈ netloc then .error "Invalid IPv6 URL".toList
  else .ok
    { scheme := url.takeWhile (· ≠ ':')
      netloc
      path := target.takeWhile (· ≠ '?')
      query := (target.dropWhile (· ≠ '?')).drop 1 }

/-- The text frames with one byte for the length, and no others; a connection is what has come. -/
def plain : Outside (List Text) where
  urlparse := plainParse
  version := "1.2.0".toList
  connection := []
  sendText ws message :=
    let data := encode message
    .ok (0x81 :: UInt8.ofNat (0x80 + data.length) :: 0 :: 0 :: 0 :: 0 :: data, ws)
  sendClose ws code _ := .ok
    ([0x88, 0x82, 0, 0, 0, 0, UInt8.ofNat (code / 256), UInt8.ofNat (code % 256)], ws)
  receiveData ws data :=
    match data with
    | 0x81 :: _ :: payload => .ok (ws ++ [payload.map fun b => Char.ofNat b.toNat])
    | _ => .ok ws
  events ws := (ws.map .textMessage, [])

end Smoll.Http3
