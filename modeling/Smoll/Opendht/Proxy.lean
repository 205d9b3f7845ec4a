/-
# `Smoll.Opendht.Proxy` — the REST proxy in front of a DHT node

The router gives a request to one of four handlers. Two answer at once; `get`
and `put` ask the DHT node and leave the rest to its callbacks, which come
later and in between those of other requests:

    options, getNodeInfo     a response
    get                      a header, then from the callbacks a chunk for
                             each value and the end of the response
    put                      without a body a response, else the body is
                             parsed, and the callback answers

`put` has a branch without an answer: it returns "accepted" for a body that is
no JSON, and throws for JSON that no value is made from. All other requests
are answered once (`answered_once_iff`).
-/
import Mathlib.Data.List.Basic
import Smoll.Lib.Sched

namespace Smoll.Opendht.Proxy

open Smoll.Sched

/-! ## Requests and responses -/

inductive Method where
  | options
  | get
  | post
  | other (name : String)
deriving DecidableEq

inductive Path where
  | root
  | hash (hash : String)
  | other (path : String)
deriving DecidableEq

structure Request where
  method : Method
  path : Path
  body : String
  remoteAddress : String
deriving DecidableEq

inductive Status where
  | ok
  | badRequest
  | badGateway
deriving DecidableEq

structure Response where
  status : Status
  headers : List (String × String)
  body : String
  keepAlive : Bool
deriving DecidableEq

def createResponse (status : Status) : Response :=
  ⟨status, [], "", false⟩

def Response.appendHeader (response : Response) (name value : String) : Response :=
  { response with headers := response.headers ++ [(name, value)] }

def initHttpResponse (response : Response) : Response :=
  let response := response.appendHeader "Server" "RESTinio"
  let response := response.appendHeader "Content-Type" "application/json"
  let response := response.appendHeader "Access-Control-Allow-Origin" "*"
  { response with keepAlive := true }

/-- The calls on the response builders of a request. -/
inductive Sent where
  | flush
  | chunk (output : String)
  | done (response : Response)
deriving DecidableEq

def respMsgMissingParams : String := "\x7b\"err\":\"Missing parameters\"\x7d"

def respMsgPutFailed : String := "\x7b\"err\":\"Put failed\"\x7d"

/-! ## The code around the handlers -/

variable {Hash Json Value NodeInfo : Type}

/-- What the handlers use of opendht and of the JSON library. -/
structure Outside (Hash Json Value NodeInfo : Type) where
  infoHash : String → Hash
  isZero : Hash → Bool
  /-- `dht::InfoHash::get` -/
  hashOf : String → Hash
  goodNodesIpv4 : NodeInfo → Nat
  goodNodesIpv6 : NodeInfo → Nat
  /-- the info with a `public_ip`, written as JSON -/
  infoText : NodeInfo → String → String
  parse : String → Option Json
  /-- the constructor of `dht::Value`, which may throw -/
  valueOf : Json → Except String Value
  /-- throws where the JSON is no object -/
  isMember : Json → String → Except String Bool
  valueText : Value → String

/-- The callbacks a request waits for, with what they captured. -/
inductive Awaiting (Hash Value : Type) where
  | get (infoHash : Hash) (response : Response)
  | put (infoHash : Hash) (value : Value) (permanent : Bool)

inductive Handled where
  | accepted
  | thrown (what : String)
deriving DecidableEq

/-- A request and what has been done about it. -/
structure Entry (Hash Value : Type) where
  request : Request
  sent : List Sent
  awaiting : Option (Awaiting Hash Value)
  handled : Handled

/-- `return response.done()`. -/
def Entry.answered (request : Request) (response : Response) : Entry Hash Value :=
  ⟨request, [.done response], none, .accepted⟩

structure DhtProxyServer (Hash Value NodeInfo : Type) where
  requestCount : Nat
  dhtNodeInfo : NodeInfo
  requests : List (Entry Hash Value)

/-! ## The handlers -/

/-- The methods depend on `OPENDHT_PROXY_SERVER_IDENTITY`. -/
def options (identity : Bool) (request : Request) : Entry Hash Value :=
  let methods :=
    if identity then "OPTIONS, GET, POST, LISTEN, SIGN, ENCRYPT"
    else "OPTIONS, GET, POST, LISTEN"
  let response := initHttpResponse (createResponse .ok)
  let response := response.appendHeader "Access-Control-Allow-Methods" methods
  let response := response.appendHeader "Access-Control-Allow-Headers" "content-type"
  let response := response.appendHeader "Access-Control-Max-Age" "86400"
  Entry.answered request response

variable (out : Outside Hash Json Value NodeInfo)

/-- The info is asked for again as long as no good node is known. -/
def refresh (dhtNodeInfo current : NodeInfo) : NodeInfo :=
  if out.goodNodesIpv4 dhtNodeInfo = 0 ∧ out.goodNodesIpv6 dhtNodeInfo = 0 then current
  else dhtNodeInfo

def getNodeInfo (dhtNodeInfo : NodeInfo) (request : Request) : Entry Hash Value :=
  let output := out.infoText dhtNodeInfo request.remoteAddress ++ "\n"
  let response := initHttpResponse (createResponse .ok)
  Entry.answered request { response with body := response.body ++ output }

def hashParam (hash : String) : Hash :=
  if out.isZero (out.infoHash hash) then out.hashOf hash else out.infoHash hash

def get (hash : String) (request : Request) : Entry Hash Value :=
  let response := initHttpResponse (createResponse .ok)
  ⟨request, [.flush], some (.get (hashParam out hash) response), .accepted⟩

/-- The `if` around the parsed body has no `else`. -/
def put (hash : String) (request : Request) : Entry Hash Value :=
  if request.body = "" then
    let response := initHttpResponse (createResponse .badRequest)
    Entry.answered request { response with body := respMsgMissingParams }
  else
    match out.parse request.body with
    | none => ⟨request, [], none, .accepted⟩
    | some root =>
        match out.valueOf root, out.isMember root "permanent" with
        | .error what, _ => ⟨request, [], none, .thrown what⟩
        | .ok _, .error what => ⟨request, [], none, .thrown what⟩
        | .ok value, .ok permanent =>
            ⟨request, [], some (.put (hashParam out hash) value permanent), .accepted⟩

/-! ## The callbacks -/

def onValue (value : Value) (entry : Entry Hash Value) : Option (Entry Hash Value) :=
  match entry.awaiting with
  | some (.get _ _) =>
      some { entry with sent := entry.sent ++ [.chunk (out.valueText value ++ "\n"), .flush] }
  | _ => none

/-- The flag is not looked at. -/
def onGetDone (_ok : Bool) (entry : Entry Hash Value) : Option (Entry Hash Value) :=
  match entry.awaiting with
  | some (.get _ response) =>
      some { entry with sent := entry.sent ++ [.done response], awaiting := none }
  | _ => none

def onPutDone (ok : Bool) (entry : Entry Hash Value) : Option (Entry Hash Value) :=
  match entry.awaiting with
  | some (.put _ value _) =>
      let response :=
        if ok then
          let response := initHttpResponse (createResponse .ok)
          { response with body := response.body ++ (out.valueText value ++ "\n") }
        else
          { initHttpResponse (createResponse .badGateway) with body := respMsgPutFailed }
      some { entry with sent := entry.sent ++ [.done response], awaiting := none }
  | _ => none

/-! ## The server -/

inductive Handler where
  | options
  | getNodeInfo
  | get (hash : String)
  | put (hash : String)
deriving DecidableEq

/-- `createRestRouter`; what it has no handler for never comes to the server. -/
def route (request : Request) : Option Handler :=
  match request.method, request.path with
  | .options, .root => some .options
  | .get, .root => some .getNodeInfo
  | .get, .hash hash => some (.get hash)
  | .post, .hash hash => some (.put hash)
  | _, _ => none

/-- A request comes in, while the node would report the given info; or one of the
callbacks of a request is called. -/
inductive Move (Value NodeInfo : Type) where
  | dispatch (request : Request) (current : NodeInfo)
  | value (index : Nat) (value : Value)
  | getDone (index : Nat) (ok : Bool)
  | putDone (index : Nat) (ok : Bool)

namespace DhtProxyServer

def accept (self : DhtProxyServer Hash Value NodeInfo) (entry : Entry Hash Value) :
    DhtProxyServer Hash Value NodeInfo :=
  { self with requests := self.requests ++ [entry] }

def handle (identity : Bool) (self : DhtProxyServer Hash Value NodeInfo) (request : Request)
    (current : NodeInfo) : Handler → DhtProxyServer Hash Value NodeInfo
  | .options =>
      { self with requestCount := self.requestCount + 1 }.accept (options identity request)
  | .getNodeInfo =>
      let dhtNodeInfo := refresh out self.dhtNodeInfo current
      { self with dhtNodeInfo := dhtNodeInfo }.accept (getNodeInfo out dhtNodeInfo request)
  | .get hash => self.accept (get out hash request)
  | .put hash => self.accept (put out hash request)

def callback (self : DhtProxyServer Hash Value NodeInfo) (index : Nat)
    (f : Entry Hash Value → Option (Entry Hash Value)) :
    Option (DhtProxyServer Hash Value NodeInfo) := do
  let entry ← self.requests[index]?
  let entry ← f entry
  return { self with requests := self.requests.set index entry }

def step (identity : Bool) :
    Move Value NodeInfo → DhtProxyServer Hash Value NodeInfo →
      Option (DhtProxyServer Hash Value NodeInfo)
  | .dispatch request current, self => (route request).map (self.handle out identity request current)
  | .value index value, self => self.callback index (onValue out value)
  | .getDone index ok, self => self.callback index (onGetDone ok)
  | .putDone index ok, self => self.callback index (onPutDone out ok)

def init (dhtNodeInfo : NodeInfo) : DhtProxyServer Hash Value NodeInfo :=
  ⟨0, dhtNodeInfo, []⟩

end DhtProxyServer

/-! ## Answers -/

def NoDone (sent : List Sent) : Prop :=
  ∀ response, Sent.done response ∉ sent

/-- One response is completed, and nothing is sent after it. -/
def AnsweredOnce (sent : List Sent) : Prop :=
  ∃ before response, sent = before ++ [Sent.done response] ∧ NoDone before

/-- What `put` needs of a body. -/
def Answerable (request : Request) : Prop :=
  ∀ hash, route request = some (.put hash) →
    request.body = "" ∨
      ∃ root value permanent, out.parse request.body = some root ∧
        out.valueOf root = .ok value ∧ out.isMember root "permanent" = .ok permanent

/-- Who waits for the node has not been answered and will be; who does not is settled. -/
structure EntryOk (entry : Entry Hash Value) : Prop where
  waiting : entry.awaiting ≠ none → NoDone entry.sent ∧ Answerable out entry.request
  settled : entry.awaiting = none → (AnsweredOnce entry.sent ↔ Answerable out entry.request)

theorem noDone_nil : NoDone [] := by
  intro response h
  cases h

theorem not_answeredOnce_nil : ¬ AnsweredOnce [] := by
  rintro ⟨before, response, h, _⟩
  exact absurd h.symm (List.append_ne_nil_of_right_ne_nil before (List.cons_ne_nil _ _))

theorem answerable_of_route {request : Request} {handler : Handler}
    (hroute : route request = some handler) (hput : ∀ hash, handler ≠ .put hash) :
    Answerable out request := by
  intro hash h
  exact absurd (Option.some.inj (hroute.symm.trans h)) (hput hash)

variable {out}

theorem EntryOk.of_awaiting {entry : Entry Hash Value} {awaiting : Awaiting Hash Value}
    (hok : EntryOk out entry) (h : entry.awaiting = some awaiting) :
    NoDone entry.sent ∧ Answerable out entry.request := by
  refine hok.waiting ?_
  rw [h]
  exact Option.some_ne_none _

/-- The last call of a request. -/
theorem EntryOk.of_done {request : Request} {before : List Sent} {response : Response}
    {handled : Handled} (hbefore : NoDone before) (hrequest : Answerable out request) :
    EntryOk out (⟨request, before ++ [.done response], none, handled⟩ : Entry Hash Value) where
  waiting := by
    intro h
    exact absurd rfl h
  settled := by
    intro _
    constructor
    · intro _
      exact hrequest
    · intro _
      exact ⟨before, response, rfl, hbefore⟩

theorem EntryOk.of_answered {request : Request} {response : Response}
    (hrequest : Answerable out request) :
    EntryOk out (Entry.answered request response : Entry Hash Value) :=
  EntryOk.of_done noDone_nil hrequest

theorem EntryOk.of_waiting {request : Request} {sent : List Sent}
    {awaiting : Awaiting Hash Value} {handled : Handled} (hsent : NoDone sent)
    (hrequest : Answerable out request) :
    EntryOk out ⟨request, sent, some awaiting, handled⟩ where
  waiting := by
    intro _
    exact ⟨hsent, hrequest⟩
  settled := by
    intro h
    cases h

/-- The branches of `put` without an answer. -/
theorem EntryOk.of_unanswerable {request : Request} {handled : Handled}
    (hrequest : ¬ Answerable out request) :
    EntryOk out (⟨request, [], none, handled⟩ : Entry Hash Value) where
  waiting := by
    intro h
    exact absurd rfl h
  settled := by
    intro _
    constructor
    · intro h
      exact absurd h not_answeredOnce_nil
    · intro h
      exact absurd h hrequest

/-! ## What the handlers do -/

theorem get_ok {hash hash' : String} {request : Request}
    (hroute : route request = some (.get hash)) : EntryOk out (get out hash' request) := by
  have hflush : NoDone [Sent.flush] := by
    intro response h
    cases List.mem_singleton.mp h
  exact EntryOk.of_waiting hflush (answerable_of_route out hroute (fun _ h => by cases h))

theorem put_ok {hash : String} {request : Request} (hroute : route request = some (.put hash)) :
    EntryOk out (put out hash request) := by
  rw [put]
  split
  · rename_i hbody
    exact EntryOk.of_answered fun _ _ => Or.inl hbody
  · rename_i hbody
    split
    · rename_i hparse
      apply EntryOk.of_unanswerable
      intro h
      rcases h hash hroute with hempty | ⟨root, _, _, hroot, _⟩
      · exact hbody hempty
      · rw [hparse] at hroot
        cases hroot
    · rename_i root hparse
      split
      · rename_i what hvalue
        apply EntryOk.of_unanswerable
        intro h
        rcases h hash hroute with hempty | ⟨root', value, _, hroot, hvalue', _⟩
        · exact hbody hempty
        · cases hparse.symm.trans hroot
          cases hvalue.symm.trans hvalue'
      · rename_i value what hvalue hmember
        apply EntryOk.of_unanswerable
        intro h
        rcases h hash hroute with hempty | ⟨root', _, permanent, hroot, _, hmember'⟩
        · exact hbody hempty
        · cases hparse.symm.trans hroot
          cases hmember.symm.trans hmember'
      · rename_i value permanent hvalue hmember
        exact EntryOk.of_waiting noDone_nil fun _ _ =>
          Or.inr ⟨root, value, permanent, hparse, hvalue, hmember⟩

/-! ## What the callbacks do -/

theorem onValue_ok {value : Value} {entry entry' : Entry Hash Value} (hok : EntryOk out entry)
    (h : onValue out value entry = some entry') : EntryOk out entry' := by
  rw [onValue] at h
  split at h
  · rename_i infoHash response hawaiting
    rcases hok.of_awaiting hawaiting with ⟨hsent, hrequest⟩
    cases h
    constructor
    · intro _
      refine ⟨?_, hrequest⟩
      intro r hr
      rcases List.mem_append.mp hr with hr | hr
      · exact hsent r hr
      · rcases List.mem_cons.mp hr with hr | hr
        · cases hr
        · cases List.mem_singleton.mp hr
    · intro hnone
      rw [hawaiting] at hnone
      cases hnone
  · cases h

theorem onGetDone_ok {ok : Bool} {entry entry' : Entry Hash Value} (hok : EntryOk out entry)
    (h : onGetDone ok entry = some entry') : EntryOk out entry' := by
  rw [onGetDone] at h
  split at h
  · rename_i infoHash response hawaiting
    rcases hok.of_awaiting hawaiting with ⟨hsent, hrequest⟩
    cases h
    exact EntryOk.of_done hsent hrequest
  · cases h

theorem onPutDone_ok {ok : Bool} {entry entry' : Entry Hash Value} (hok : EntryOk out entry)
    (h : onPutDone out ok entry = some entry') : EntryOk out entry' := by
  rw [onPutDone] at h
  split at h
  · rename_i infoHash value permanent hawaiting
    rcases hok.of_awaiting hawaiting with ⟨hsent, hrequest⟩
    cases h
    exact EntryOk.of_done hsent hrequest
  · cases h

/-! ## Runs -/

namespace DhtProxyServer

def AllOk (out : Outside Hash Json Value NodeInfo) (self : DhtProxyServer Hash Value NodeInfo) :
    Prop :=
  ∀ entry ∈ self.requests, EntryOk out entry

theorem AllOk.accept {self : DhtProxyServer Hash Value NodeInfo} {entry : Entry Hash Value}
    (hself : AllOk out self) (hentry : EntryOk out entry) : AllOk out (self.accept entry) := by
  intro e he
  rcases List.mem_append.mp he with he | he
  · exact hself e he
  · rw [List.mem_singleton.mp he]
    exact hentry

theorem AllOk.callback {self self' : DhtProxyServer Hash Value NodeInfo} {index : Nat}
    {f : Entry Hash Value → Option (Entry Hash Value)} (hself : AllOk out self)
    (hf : ∀ {entry entry'}, EntryOk out entry → f entry = some entry' → EntryOk out entry')
    (h : self.callback index f = some self') : AllOk out self' := by
  rcases Option.bind_eq_some_iff.mp h with ⟨entry, hentry, h⟩
  rcases Option.bind_eq_some_iff.mp h with ⟨entry', hentry', h⟩
  cases h
  intro e he
  rcases List.mem_or_eq_of_mem_set he with he | rfl
  · exact hself e he
  · exact hf (hself entry (List.mem_of_getElem? hentry)) hentry'

theorem AllOk.handle {identity : Bool} {self : DhtProxyServer Hash Value NodeInfo}
    {request : Request} {current : NodeInfo} {handler : Handler} (hself : AllOk out self)
    (hroute : route request = some handler) :
    AllOk out (self.handle out identity request current handler) := by
  cases handler with
  | options =>
      exact AllOk.accept hself
        (EntryOk.of_answered (answerable_of_route out hroute (fun _ h => by cases h)))
  | getNodeInfo =>
      exact AllOk.accept hself
        (EntryOk.of_answered (answerable_of_route out hroute (fun _ h => by cases h)))
  | get hash => exact hself.accept (get_ok hroute)
  | put hash => exact hself.accept (put_ok hroute)

theorem AllOk.step {identity : Bool} {move : Move Value NodeInfo}
    {self self' : DhtProxyServer Hash Value NodeInfo} (hself : AllOk out self)
    (h : DhtProxyServer.step out identity move self = some self') : AllOk out self' := by
  cases move with
  | dispatch request current =>
      rcases Option.map_eq_some_iff.mp h with ⟨handler, hroute, rfl⟩
      exact hself.handle hroute
  | value index value => exact hself.callback onValue_ok h
  | getDone index ok => exact hself.callback onGetDone_ok h
  | putDone index ok => exact hself.callback onPutDone_ok h

/-- The callback that ends the wait. -/
def finish (index : Nat) (ok : Bool) : Awaiting Hash Value → Move Value NodeInfo
  | .get _ _ => .getDone index ok
  | .put _ _ _ => .putDone index ok

theorem callback_eq {self : DhtProxyServer Hash Value NodeInfo} {index : Nat}
    {f : Entry Hash Value → Option (Entry Hash Value)} {entry entry' : Entry Hash Value}
    (hentry : self.requests[index]? = some entry) (hf : f entry = some entry') :
    ∃ self', self.callback index f = some self' ∧ self'.requests[index]? = some entry' := by
  refine ⟨{ self with requests := self.requests.set index entry' }, ?_, ?_⟩
  · rw [callback, hentry]
    simp only [Option.bind_eq_bind, Option.bind_some, hf]
    rfl
  · have hlt : index < self.requests.length := (List.getElem?_eq_some_iff.mp hentry).1
    exact List.getElem?_set_self hlt

/-- Whatever the node says in the end, who waits is answered by it. -/
theorem finish_answers {identity : Bool} {self : DhtProxyServer Hash Value NodeInfo} {index : Nat}
    {entry : Entry Hash Value} {awaiting : Awaiting Hash Value} (ok : Bool)
    (hself : AllOk out self) (hentry : self.requests[index]? = some entry)
    (hawaiting : entry.awaiting = some awaiting) :
    ∃ self' entry', DhtProxyServer.step out identity (finish index ok awaiting) self = some self' ∧
      self'.requests[index]? = some entry' ∧ entry'.request = entry.request ∧
      entry'.awaiting = none ∧ AnsweredOnce entry'.sent := by
  have hsent : NoDone entry.sent :=
    ((hself entry (List.mem_of_getElem? hentry)).of_awaiting hawaiting).1
  cases awaiting with
  | get infoHash response =>
      have hf : onGetDone ok entry =
          some { entry with sent := entry.sent ++ [.done response], awaiting := none } := by
        rw [onGetDone, hawaiting]
      rcases callback_eq hentry hf with ⟨self', hstep, hget⟩
      exact ⟨self', _, hstep, hget, rfl, rfl, entry.sent, response, rfl, hsent⟩
  | put infoHash value permanent =>
      obtain ⟨response, hf⟩ : ∃ response, onPutDone out ok entry =
          some { entry with sent := entry.sent ++ [.done response], awaiting := none } := by
        rw [onPutDone, hawaiting]
        exact ⟨_, rfl⟩
      rcases callback_eq hentry hf with ⟨self', hstep, hget⟩
      exact ⟨self', _, hstep, hget, rfl, rfl, entry.sent, response, rfl, hsent⟩

/-- In every run, a request the node owes nothing more is answered exactly once unless
`put` could make nothing of its body, and any other is answered once the node is done. -/
theorem answered_once_iff (out : Outside Hash Json Value NodeInfo) (identity : Bool)
    (dhtNodeInfo : NodeInfo) (self : DhtProxyServer Hash Value NodeInfo)
    (hrun : Reaches (DhtProxyServer.step out identity) (init dhtNodeInfo) self)
    (index : Nat) (entry : Entry Hash Value) (hentry : self.requests[index]? = some entry) :
    (entry.awaiting = none → (AnsweredOnce entry.sent ↔ Answerable out entry.request)) ∧
    ∀ awaiting ok, entry.awaiting = some awaiting →
      ∃ self' entry', DhtProxyServer.step out identity (finish index ok awaiting) self = some self' ∧
        self'.requests[index]? = some entry' ∧ entry'.request = entry.request ∧
        entry'.awaiting = none ∧ AnsweredOnce entry'.sent := by
  have hinit : AllOk out (init dhtNodeInfo : DhtProxyServer Hash Value NodeInfo) := by
    intro e he
    cases he
  have hall : AllOk out self := hrun.invariant AllOk.step hinit
  constructor
  · intro hsettled
    exact (hall entry (List.mem_of_getElem? hentry)).settled hsettled
  · intro awaiting ok hawaiting
    exact finish_answers ok hall hentry hawaiting

/-- Code around the server for which only `5` is JSON, and no value is made from it. -/
def sample : Outside String String String Unit where
  infoHash := id
  isZero _ := false
  hashOf := id
  goodNodesIpv4 _ := 0
  goodNodesIpv6 _ := 0
  infoText _ address := address
  parse body := if body = "5" then some body else none
  valueOf _ := .error "no object"
  isMember _ _ := .error "no object"
  valueText := id

def getRequest : Request := ⟨.get, .hash "2f", "", "::1"⟩

def putRequest : Request := ⟨.post, .hash "2f", "x", "::1"⟩

/-- One value, and the end. -/
theorem answered_once_iff_getRequest :
    AnsweredOnce [.flush, .chunk ("v" ++ "\n"), .flush,
      .done (initHttpResponse (createResponse .ok))] := by
  have hrun := reaches_of_run
    (show run (DhtProxyServer.step sample false)
      [.dispatch getRequest (), .value 0 "v", .getDone 0 true] (init ()) = some _ from rfl)
  exact ((answered_once_iff sample false () _ hrun 0 _ rfl).1 rfl).mpr
    (answerable_of_route sample (show route getRequest = some (.get "2f") from rfl)
      (fun _ h => by cases h))

/-- A `put` whose body is no JSON is accepted, and never answered. -/
theorem not_answered_once :
    ¬ ∀ (out : Outside String String String Unit) (identity : Bool)
        (self : DhtProxyServer String String Unit),
        Reaches (DhtProxyServer.step out identity) (init ()) self →
        ∀ entry ∈ self.requests, entry.awaiting = none → AnsweredOnce entry.sent := by
  intro h
  have hrun := reaches_of_run
    (show run (DhtProxyServer.step sample false) [.dispatch putRequest ()] (init ()) =
      some ⟨0, (), [⟨putRequest, [], none, .accepted⟩]⟩ from rfl)
  exact not_answeredOnce_nil (h sample false _ hrun _ List.mem_cons_self rfl)

end DhtProxyServer

end Smoll.Opendht.Proxy
