/-
# `Smoll.Opendht.Transcripts` — what the proxy sends for each request, over a whole run

The callbacks of all requests come in any order.  A `get` sends its header, then
a chunk for each value that its own callback was given, in that order, and the
end of the response when the node is done (`get_transcript`).  The client of
`Smoll.Opendht.JsonLines` prints these values one by one as they come if no
chunk is cut, and only then (`values_printed_iff`).

`getNodeInfo` asks the node only as long as what it has shows no good node; the
first info that does is what every later request is told (`nodeInfo_told`).
-/
import Smoll.Opendht.JsonLines
import Smoll.Opendht.Proxy

namespace Smoll.Opendht.Proxy

open Smoll.Sched Smoll.Lines

variable {Hash Json Value NodeInfo : Type}

/-! ## The moves of a request -/

def Move.dispatches : Move Value NodeInfo → Bool
  | .dispatch _ _ => true
  | _ => false

/-- How many requests have come. -/
def dispatched (moves : List (Move Value NodeInfo)) : Nat := moves.countP Move.dispatches

def Move.valueFor (index : Nat) : Move Value NodeInfo → Option Value
  | .value i v => if i = index then some v else none
  | _ => none

/-- What the node has found for a request. -/
def valuesFor (index : Nat) (moves : List (Move Value NodeInfo)) : List Value :=
  moves.filterMap (Move.valueFor index)

def Move.ends (index : Nat) : Move Value NodeInfo → Bool
  | .getDone i _ => decide (i = index)
  | _ => false

/-- What is sent for a `get`. -/
def transcript (out : Outside Hash Json Value NodeInfo) (index : Nat)
    (moves : List (Move Value NodeInfo)) : List Sent :=
  .flush :: ((valuesFor index moves).flatMap fun value =>
      [.chunk (out.valueText value ++ "\n"), .flush]) ++
    if moves.any (Move.ends index) then [.done (initHttpResponse (createResponse .ok))] else []

variable {out : Outside Hash Json Value NodeInfo} {identity : Bool}

namespace DhtProxyServer

variable {self self' : DhtProxyServer Hash Value NodeInfo}

/-- A request that comes is put behind the others; a callback changes its own. -/
theorem requests_step {move : Move Value NodeInfo} (h : step out identity move self = some self') :
    (∃ request current entry, move = .dispatch request current ∧
        self'.requests = self.requests ++ [entry]) ∨
      ∃ index entry entry', move.dispatches = false ∧ self.requests[index]? = some entry ∧
        self'.requests = self.requests.set index entry' ∧
        self'.dhtNodeInfo = self.dhtNodeInfo ∧
        ((∃ value, move = .value index value ∧ onValue out value entry = some entry') ∨
          (∃ ok, move = .getDone index ok ∧ onGetDone ok entry = some entry') ∨
          ∃ ok, move = .putDone index ok ∧ onPutDone out ok entry = some entry') := by
  have hcallback : ∀ {index f}, self.callback index f = some self' →
      ∃ entry entry', self.requests[index]? = some entry ∧ f entry = some entry' ∧
        self'.requests = self.requests.set index entry' ∧
        self'.dhtNodeInfo = self.dhtNodeInfo := by
    intro index f h
    rcases Option.bind_eq_some_iff.mp h with ⟨entry, hentry, h⟩
    rcases Option.bind_eq_some_iff.mp h with ⟨entry', hentry', h⟩
    cases h
    exact ⟨entry, entry', hentry, hentry', rfl, rfl⟩
  cases move with
  | dispatch request current =>
      rcases Option.map_eq_some_iff.mp h with ⟨handler, _, rfl⟩
      refine .inl ⟨request, current, ?_⟩
      cases handler with
      | options => exact ⟨_, rfl, rfl⟩
      | getNodeInfo => exact ⟨_, rfl, rfl⟩
      | get hash => exact ⟨_, rfl, rfl⟩
      | put hash => exact ⟨_, rfl, rfl⟩
  | value index value =>
      rcases hcallback h with ⟨entry, entry', hentry, hf, hrequests, hinfo⟩
      exact .inr ⟨index, entry, entry', rfl, hentry, hrequests, hinfo, .inl ⟨value, rfl, hf⟩⟩
  | getDone index ok =>
      rcases hcallback h with ⟨entry, entry', hentry, hf, hrequests, hinfo⟩
      exact .inr ⟨index, entry, entry', rfl, hentry, hrequests, hinfo, .inr (.inl ⟨ok, rfl, hf⟩)⟩
  | putDone index ok =>
      rcases hcallback h with ⟨entry, entry', hentry, hf, hrequests, hinfo⟩
      exact .inr ⟨index, entry, entry', rfl, hentry, hrequests, hinfo, .inr (.inr ⟨ok, rfl, hf⟩)⟩

theorem length_run {moves : List (Move Value NodeInfo)}
    (h : run (step out identity) moves self = some self') :
    self'.requests.length = self.requests.length + dispatched moves := by
  refine run_history (R := fun past s => s.requests.length = self.requests.length + dispatched past)
    ?_ h (Nat.add_zero _).symm
  intro past move s s' hlen hstep
  rw [dispatched, List.countP_append, ← dispatched]
  rcases requests_step hstep with ⟨request, current, entry, rfl, hrequests⟩ |
    ⟨index, entry, entry', hmove, _, hrequests, _, _⟩
  · rw [hrequests, List.length_append, hlen, Nat.add_assoc]
    rfl
  · rw [hrequests, List.length_set, hlen, List.countP_singleton, hmove]
    rfl

end DhtProxyServer

/-! ## `get` -/

theorem transcript_concat (index : Nat) (past : List (Move Value NodeInfo))
    (move : Move Value NodeInfo) (hopen : past.any (Move.ends index) = false) :
    transcript out index (past ++ [move]) =
      transcript out index past ++ (((move.valueFor index).toList.flatMap fun value =>
        [.chunk (out.valueText value ++ "\n"), .flush]) ++
          if move.ends index = true then [.done (initHttpResponse (createResponse .ok))] else []) := by
  unfold transcript valuesFor
  rw [List.any_append, hopen, Bool.false_or, List.any_cons, List.any_nil, Bool.or_false,
    List.filterMap_append, List.flatMap_append, if_neg Bool.false_ne_true, List.append_nil,
    List.cons_append, List.append_assoc]
  congr 2

/-- Nothing of another request. -/
theorem transcript_concat_of_ne (out : Outside Hash Json Value NodeInfo) {index : Nat} (past : List (Move Value NodeInfo))
    {move : Move Value NodeInfo} (hvalue : move.valueFor index = none)
    (hends : move.ends index = false) :
    transcript out index (past ++ [move]) = transcript out index past ∧
      (past ++ [move]).any (Move.ends index) = past.any (Move.ends index) := by
  have hany : (past ++ [move]).any (Move.ends index) = past.any (Move.ends index) := by
    rw [List.any_append, List.any_cons, hends, List.any_nil, Bool.or_false, Bool.or_false]
  refine ⟨?_, hany⟩
  unfold transcript
  rw [hany, valuesFor, List.filterMap_append, List.filterMap_cons, hvalue, List.filterMap_nil,
    List.append_nil, ← valuesFor]

/-- The entry of a `get` after these moves. -/
structure Streaming (out : Outside Hash Json Value NodeInfo) (request : Request) (hash : String)
    (index : Nat) (past : List (Move Value NodeInfo)) (entry : Entry Hash Value) : Prop where
  request : entry.request = request
  sent : entry.sent = transcript out index past
  awaiting : entry.awaiting =
    if past.any (Move.ends index) then none
    else some (.get (hashParam out hash) (initHttpResponse (createResponse .ok)))

namespace Streaming

variable {request : Request} {hash : String} {index : Nat} {past : List (Move Value NodeInfo)}
  {entry entry' : Entry Hash Value}

theorem value (h : Streaming out request hash index past entry) {v : Value}
    (hv : onValue out v entry = some entry') :
    Streaming out request hash index (past ++ [.value index v]) entry' := by
  have hawaiting := h.awaiting
  cases hopen : past.any (Move.ends index) with
  | true =>
      rw [hopen, if_pos rfl] at hawaiting
      rw [onValue, hawaiting] at hv
      cases hv
  | false =>
      rw [hopen, if_neg Bool.false_ne_true] at hawaiting
      rw [onValue, hawaiting] at hv
      cases hv
      constructor
      · exact h.request
      · have hown : (Move.value index v : Move Value NodeInfo).valueFor index = some v := if_pos rfl
        rw [transcript_concat _ _ _ hopen, hown]
        exact congrArg (· ++ _) h.sent
      · rw [List.any_append, hopen]
        rfl

theorem getDone (h : Streaming out request hash index past entry) {ok : Bool}
    (hv : onGetDone ok entry = some entry') :
    Streaming out request hash index (past ++ [.getDone index ok]) entry' := by
  have hawaiting := h.awaiting
  cases hopen : past.any (Move.ends index) with
  | true =>
      rw [hopen, if_pos rfl] at hawaiting
      rw [onGetDone, hawaiting] at hv
      cases hv
  | false =>
      rw [hopen, if_neg Bool.false_ne_true] at hawaiting
      rw [onGetDone, hawaiting] at hv
      cases hv
      have hends : (Move.getDone index ok : Move Value NodeInfo).ends index = true :=
        decide_eq_true rfl
      constructor
      · exact h.request
      · rw [transcript_concat _ _ _ hopen, if_pos hends]
        exact congrArg (· ++ _) h.sent
      · rw [List.any_append, List.any_cons, hends, Bool.true_or, Bool.or_true]
        rfl

theorem putDone (h : Streaming out request hash index past entry) {ok : Bool}
    (hv : onPutDone out ok entry = some entry') : False := by
  have hawaiting := h.awaiting
  rw [onPutDone, hawaiting] at hv
  split at hv
  · next heq =>
      split at heq
      · cases heq
      · cases heq
  · cases hv

/-- A move that is not about this request. -/
theorem other (h : Streaming out request hash index past entry) {move : Move Value NodeInfo}
    (hvalue : move.valueFor index = none) (hends : move.ends index = false) :
    Streaming out request hash index (past ++ [move]) entry := by
  rcases transcript_concat_of_ne out past hvalue hends with ⟨hsent, hany⟩
  exact ⟨h.request, h.sent.trans hsent.symm, by rw [hany]; exact h.awaiting⟩

end Streaming

namespace DhtProxyServer

variable {self self' : DhtProxyServer Hash Value NodeInfo}

theorem streaming_step {request : Request} {hash : String} {index : Nat}
    {past : List (Move Value NodeInfo)} {move : Move Value NodeInfo}
    (h : ∃ entry, self.requests[index]? = some entry ∧
      Streaming out request hash index past entry)
    (hstep : step out identity move self = some self') :
    ∃ entry, self'.requests[index]? = some entry ∧
      Streaming out request hash index (past ++ [move]) entry := by
  rcases h with ⟨entry, hentry, h⟩
  rcases requests_step hstep with ⟨request', current, new, rfl, hrequests⟩ |
    ⟨i, old, new, _, hold, hrequests, _, hwhich⟩
  · refine ⟨entry, ?_, h.other rfl rfl⟩
    rw [hrequests, List.getElem?_append_left (List.getElem?_eq_some_iff.mp hentry).1]
    exact hentry
  · by_cases hi : i = index
    · subst hi
      obtain rfl : entry = old := Option.some.inj (hentry.symm.trans hold)
      refine ⟨new, ?_, ?_⟩
      · rw [hrequests]
        exact List.getElem?_set_self (List.getElem?_eq_some_iff.mp hentry).1
      · rcases hwhich with ⟨v, rfl, hv⟩ | ⟨ok, rfl, hv⟩ | ⟨ok, rfl, hv⟩
        · exact h.value hv
        · exact h.getDone hv
        · exact (h.putDone hv).elim
    · refine ⟨entry, ?_, ?_⟩
      · rw [hrequests, List.getElem?_set_ne hi]
        exact hentry
      · rcases hwhich with ⟨v, rfl, _⟩ | ⟨ok, rfl, _⟩ | ⟨ok, rfl, _⟩
        · exact h.other (if_neg hi) rfl
        · exact h.other rfl (decide_eq_false hi)
        · exact h.other rfl rfl

theorem streaming_run {dhtNodeInfo current : NodeInfo}
    {before after : List (Move Value NodeInfo)} {request : Request} {hash : String}
    (hroute : route request = some (.get hash))
    (h : run (step out identity) (before ++ .dispatch request current :: after) (init dhtNodeInfo) =
      some self) :
    ∃ entry, self.requests[dispatched before]? = some entry ∧
      Streaming out request hash (dispatched before) after entry := by
  rcases run_append.mp h with ⟨s₀, hbefore, hrest⟩
  rcases Option.bind_eq_some_iff.mp hrest with ⟨s₁, hdispatch, hafter⟩
  have hlen : s₀.requests.length = dispatched before :=
    (length_run hbefore).trans (Nat.zero_add _)
  have hstart : ∃ entry, s₁.requests[dispatched before]? = some entry ∧
      Streaming out request hash (dispatched before) [] entry := by
    rw [step, hroute] at hdispatch
    cases hdispatch
    refine ⟨get out hash request, ?_, rfl, rfl, rfl⟩
    rw [← hlen]
    exact List.getElem?_concat_length
  exact run_history (R := fun past s => ∃ entry, s.requests[dispatched before]? = some entry ∧
    Streaming out request hash (dispatched before) past entry) streaming_step hafter hstart

/-- What is sent for a `get` depends on its own callbacks only: the header, a chunk for each value
in the order in which they came, and the end once the node is done. -/
theorem get_transcript {dhtNodeInfo current : NodeInfo}
    {before after : List (Move Value NodeInfo)} {request : Request} {hash : String}
    (hroute : route request = some (.get hash))
    (h : run (step out identity) (before ++ .dispatch request current :: after) (init dhtNodeInfo) =
      some self) :
    ∃ entry, self.requests[dispatched before]? = some entry ∧ entry.request = request ∧
      entry.sent = .flush :: ((valuesFor (dispatched before) after).flatMap fun value =>
          [.chunk (out.valueText value ++ "\n"), .flush]) ++
        if after.any (Move.ends (dispatched before)) then
          [.done (initHttpResponse (createResponse .ok))] else [] := by
  rcases streaming_run hroute h with ⟨entry, hentry, hstreaming⟩
  exact ⟨entry, hentry, hstreaming.request, hstreaming.sent⟩

/-- Two requests, and the values of the first come around those of the second. -/
theorem get_transcript_two : ∃ self entry,
    run (step sample false) ([] ++ .dispatch getRequest () ::
      [.value 0 "v", .dispatch getRequest (), .value 1 "x", .value 0 "w", .getDone 0 false])
      (init ()) = some self ∧
    self.requests[0]? = some entry ∧ entry.sent =
      [.flush, .chunk ("v" ++ "\n"), .flush, .chunk ("w" ++ "\n"), .flush,
        .done (initHttpResponse (createResponse .ok))] := by
  have h : run (step sample false) ([] ++ .dispatch getRequest () ::
      [.value 0 "v", .dispatch getRequest (), .value 1 "x", .value 0 "w", .getDone 0 false])
      (init ()) = some _ := rfl
  rcases get_transcript (show route getRequest = some (.get "2f") from rfl) h with ⟨entry, hentry, _, hsent⟩
  exact ⟨_, entry, h, hentry, hsent⟩

end DhtProxyServer

/-! ## The values at the client -/

/-- The text of a call that sends one. -/
def Sent.text : Sent → Text
  | .chunk output => output.toList
  | _ => []

theorem text_transcript (index : Nat) (moves : List (Move Value NodeInfo)) :
    (transcript out index moves).flatMap Sent.text =
      bodyOf ((valuesFor index moves).map fun value => (out.valueText value).toList) := by
  unfold transcript bodyOf
  rw [List.cons_append, List.flatMap_cons, List.flatMap_append, List.flatMap_map,
    List.flatMap_assoc]
  have hdone : (if moves.any (Move.ends index) = true then
      [Sent.done (initHttpResponse (createResponse .ok))] else []).flatMap Sent.text = [] := by
    split
    · rfl
    · rfl
  rw [hdone, List.append_nil]
  show List.flatMap _ _ = _
  congr 1
  funext value
  show (out.valueText value ++ "\n").toList ++ [] = _
  rw [List.append_nil, String.toList_append]
  rfl

namespace DhtProxyServer

variable {self : DhtProxyServer Hash Value NodeInfo}

/-- A client that has got what was sent for its `get` so far has printed the values that the node
has found so far, and nothing else, exactly if no fragment ends within a value's line, its newline
included. -/
theorem values_printed_iff {ClientJson : Type} (parse : Text → Option ClientJson)
    (json : Value → ClientJson)
    (hjson : ∀ value, '\n' ∉ (out.valueText value).toList ∧
      parse (out.valueText value).toList = some (json value))
    {dhtNodeInfo current : NodeInfo} {before after : List (Move Value NodeInfo)}
    {request : Request} {hash : String} (hroute : route request = some (.get hash))
    (h : run (step out identity) (before ++ .dispatch request current :: after) (init dhtNodeInfo) =
      some self) {entry : Entry Hash Value}
    (hentry : self.requests[dispatched before]? = some entry) (fragments : List Text)
    (hfragments : fragments.flatten = entry.sent.flatMap Sent.text) :
    onFragments parse fragments = ⟨(valuesFor (dispatched before) after).map json, []⟩ ↔
      ∀ fragment ∈ fragments, Whole '\n' fragment := by
  rcases streaming_run hroute h with ⟨entry', hentry', hstreaming⟩
  obtain rfl : entry = entry' := Option.some.inj (hentry.symm.trans hentry')
  rw [hstreaming.sent, text_transcript] at hfragments
  generalize valuesFor (dispatched before) after = values at hfragments
  have hfree : ∀ line ∈ values.map fun value => (out.valueText value).toList, '\n' ∉ line := by
    intro line hline
    rcases List.mem_map.mp hline with ⟨value, _, rfl⟩
    exact (hjson value).1
  rw [onFragments_iff]
  constructor
  · intro hread
    -- as many lines were read as there are values, so no value was cut
    have hmap := congrArg List.length hread
    rw [List.length_map, List.length_map, List.length_map, length_flatMap_lines, hfragments,
      count_bodyOf hfree, List.length_map] at hmap
    have hzero : (fragments.countP fun f => ¬ Whole '\n' f) = 0 := by omega
    intro fragment hmem
    refine Decidable.byContradiction fun hnot => ?_
    exact List.countP_eq_zero.mp hzero fragment hmem (decide_eq_true hnot)
  · intro hwhole
    rw [flatMap_lines hwhole, hfragments, bodyOf, lines_flatMap hfree, List.map_map, List.map_map]
    refine List.map_congr_left ?_
    intro value _
    exact (hjson value).2

/-- A proxy whose values are numbers, written as that many strokes. -/
def strokes : Outside String String Nat Unit where
  infoHash := id
  isZero _ := false
  hashOf := id
  goodNodesIpv4 _ := 0
  goodNodesIpv6 _ := 0
  infoText _ address := address
  parse _ := none
  valueOf _ := .error "no object"
  isMember _ _ := .error "no object"
  valueText n := String.ofList (List.replicate n '|')

/-- The first value comes with half of the second. -/
theorem values_printed_iff_cut : ∃ self entry,
    run (step strokes false)
      ([] ++ .dispatch getRequest () :: [.value 0 1, .value 0 2]) (init ()) = some self ∧
    self.requests[0]? = some entry ∧
    (onFragments (fun s => some s.length) ["|\n|".toList, "|\n".toList] = ⟨[1, 2], []⟩ ↔
      ∀ fragment ∈ ["|\n|".toList, "|\n".toList], Whole '\n' fragment) := by
  have h : run (step strokes false)
      ([] ++ .dispatch getRequest () :: [.value 0 1, .value 0 2]) (init ()) = some _ := rfl
  have hjson : ∀ value, '\n' ∉ (strokes.valueText value).toList ∧
      some (strokes.valueText value).toList.length = some value := by
    intro value
    rw [show strokes.valueText value = String.ofList (List.replicate value '|') from rfl,
      String.toList_ofList]
    refine ⟨?_, congrArg some List.length_replicate⟩
    intro hmem
    exact absurd (List.eq_of_mem_replicate hmem) (by decide)
  have hroute : route getRequest = some (.get "2f") := rfl
  exact ⟨_, _, h, rfl, values_printed_iff (fun s => some s.length) id hjson hroute h rfl _ rfl⟩

/-! ## `getNodeInfo` -/

end DhtProxyServer

/-- The node knows others. -/
def good (out : Outside Hash Json Value NodeInfo) (info : NodeInfo) : Bool :=
  ¬ (out.goodNodesIpv4 info = 0 ∧ out.goodNodesIpv6 info = 0)

def Move.asksInfo : Move Value NodeInfo → Option NodeInfo
  | .dispatch request current => if route request = some .getNodeInfo then some current else none
  | _ => none

/-- What the node would have reported to each `getNodeInfo`. -/
def infosFor (moves : List (Move Value NodeInfo)) : List NodeInfo := moves.filterMap Move.asksInfo

theorem refresh_eq (info current : NodeInfo) :
    refresh out info current = if good out info = true then info else current := by
  unfold refresh good
  by_cases h : out.goodNodesIpv4 info = 0 ∧ out.goodNodesIpv6 info = 0
  · rw [if_pos h, if_neg (by simpa using h)]
  · rw [if_neg h, if_pos (decide_eq_true h)]

namespace DhtProxyServer

variable {self self' : DhtProxyServer Hash Value NodeInfo}

/-- What the server keeps is the first info with a good node, once there is one. -/
theorem dhtNodeInfo_step {known : NodeInfo} {past : List (Move Value NodeInfo)}
    {move : Move Value NodeInfo}
    (h : (known :: infosFor past).find? (good out) =
      if good out self.dhtNodeInfo = true then some self.dhtNodeInfo else none)
    (hstep : step out identity move self = some self') :
    (known :: infosFor (past ++ [move])).find? (good out) =
      if good out self'.dhtNodeInfo = true then some self'.dhtNodeInfo else none := by
  have hsame : move.asksInfo = none → self'.dhtNodeInfo = self.dhtNodeInfo →
      (known :: infosFor (past ++ [move])).find? (good out) =
        if good out self'.dhtNodeInfo = true then some self'.dhtNodeInfo else none := by
    intro hmove hinfo
    rw [infosFor, List.filterMap_append, List.filterMap_cons, hmove, List.filterMap_nil,
      List.append_nil, hinfo]
    exact h
  rcases requests_step hstep with ⟨request, current, new, rfl, _⟩ |
    ⟨i, old, new, hmove, _, _, hinfo, _⟩
  · rcases Option.map_eq_some_iff.mp hstep with ⟨handler, hroute, rfl⟩
    by_cases hhandler : handler = .getNodeInfo
    · subst hhandler
      have hasks : (Move.dispatch request current : Move Value NodeInfo).asksInfo = some current :=
        if_pos hroute
      have hnew : (self.handle out identity request current .getNodeInfo).dhtNodeInfo =
          refresh out self.dhtNodeInfo current := rfl
      rw [infosFor, List.filterMap_append, List.filterMap_cons, hasks, List.filterMap_nil,
        ← infosFor, ← List.cons_append, List.find?_append, h, hnew, refresh_eq]
      by_cases hgood : good out self.dhtNodeInfo = true
      · rw [if_pos hgood, if_pos hgood, if_pos hgood]
        rfl
      · rw [if_neg hgood, if_neg hgood, List.find?_singleton]
        rfl
    · refine hsame ?_ ?_
      · refine if_neg ?_
        rw [hroute]
        exact fun heq => hhandler (Option.some.inj heq)
      · cases handler with
        | options => rfl
        | getNodeInfo => exact absurd rfl hhandler
        | get hash => rfl
        | put hash => rfl
  · refine hsame ?_ hinfo
    cases move with
    | dispatch request current => cases hmove
    | value index value => rfl
    | getDone index ok => rfl
    | putDone index ok => rfl

/-- An answered request is left as it is. -/
theorem answered_step {index : Nat} {entry : Entry Hash Value}
    (h : self.requests[index]? = some entry ∧ entry.awaiting = none)
    {move : Move Value NodeInfo} (hstep : step out identity move self = some self') :
    self'.requests[index]? = some entry ∧ entry.awaiting = none := by
  rcases h with ⟨hentry, hnone⟩
  refine ⟨?_, hnone⟩
  rcases requests_step hstep with ⟨request, current, new, rfl, hrequests⟩ |
    ⟨i, old, new, _, hold, hrequests, _, hwhich⟩
  · rw [hrequests, List.getElem?_append_left (List.getElem?_eq_some_iff.mp hentry).1]
    exact hentry
  · have hi : i ≠ index := by
      rintro rfl
      obtain rfl : entry = old := Option.some.inj (hentry.symm.trans hold)
      rcases hwhich with ⟨v, _, hv⟩ | ⟨ok, _, hv⟩ | ⟨ok, _, hv⟩
      · rw [onValue, hnone] at hv
        cases hv
      · rw [onGetDone, hnone] at hv
        cases hv
      · rw [onPutDone, hnone] at hv
        cases hv
    rw [hrequests, List.getElem?_set_ne hi]
    exact hentry

/-- A request for the node's info is told the first info with a good node that the server has come
across, however old it is; as long as there was none, what the node reports then. -/
theorem nodeInfo_told {dhtNodeInfo current : NodeInfo}
    {before after : List (Move Value NodeInfo)} {request : Request}
    (hroute : route request = some .getNodeInfo)
    (h : run (step out identity) (before ++ .dispatch request current :: after) (init dhtNodeInfo) =
      some self) :
    ∃ entry told, self.requests[dispatched before]? = some entry ∧ entry.request = request ∧
      told = ((dhtNodeInfo :: infosFor before).find? (good out)).getD current ∧
      entry.sent = [.done { initHttpResponse (createResponse .ok) with
        body := out.infoText told request.remoteAddress ++ "\n" }] := by
  rcases run_append.mp h with ⟨s₀, hbefore, hrest⟩
  rcases Option.bind_eq_some_iff.mp hrest with ⟨s₁, hdispatch, hafter⟩
  have hlen : s₀.requests.length = dispatched before :=
    (length_run hbefore).trans (Nat.zero_add _)
  have hknown : (dhtNodeInfo :: infosFor before).find? (good out) =
      if good out s₀.dhtNodeInfo = true then some s₀.dhtNodeInfo else none := by
    refine run_history (R := fun past s => (dhtNodeInfo :: infosFor past).find? (good out) =
      if good out s.dhtNodeInfo = true then some s.dhtNodeInfo else none)
      dhtNodeInfo_step hbefore ?_
    exact List.find?_singleton
  rw [step, hroute] at hdispatch
  cases hdispatch
  have hstart : (s₀.handle out identity request current .getNodeInfo).requests[dispatched before]? =
      some (getNodeInfo out (refresh out s₀.dhtNodeInfo current) request) := by
    rw [← hlen]
    exact List.getElem?_concat_length
  have hend := run_invariant (P := fun s => s.requests[dispatched before]? =
      some (getNodeInfo out (refresh out s₀.dhtNodeInfo current) request) ∧
      (getNodeInfo out (refresh out s₀.dhtNodeInfo current) request).awaiting = none)
    (fun _ h hstep => answered_step h hstep) hafter ⟨hstart, rfl⟩
  refine ⟨_, refresh out s₀.dhtNodeInfo current, hend.1, rfl, ?_, ?_⟩
  · rw [hknown, refresh_eq]
    split
    · rfl
    · rfl
  · show [Sent.done { initHttpResponse (createResponse .ok) with
      body := "" ++ (out.infoText _ request.remoteAddress ++ "\n") }] = _
    rw [String.empty_append]

/-- A proxy whose info is the number of good nodes. -/
def counts : Outside String String Nat Nat where
  infoHash := id
  isZero _ := false
  hashOf := id
  goodNodesIpv4 := id
  goodNodesIpv6 _ := 0
  infoText info _ := toString info
  parse _ := none
  valueOf _ := .error "no object"
  isMember _ _ := .error "no object"
  valueText n := toString n

/-- The second request is told what the first found, though the node has no good node any more. -/
theorem nodeInfo_told_stale : ∃ self entry,
    run (step counts false)
      ([.dispatch ⟨.get, .root, "", "::1"⟩ 3] ++ .dispatch ⟨.get, .root, "", "::1"⟩ 0 :: [])
      (init 0) = some self ∧
    self.requests[1]? = some entry ∧
    entry.sent = [.done { initHttpResponse (createResponse .ok) with body := "3" ++ "\n" }] := by
  have h : run (step counts false)
      ([.dispatch ⟨.get, .root, "", "::1"⟩ 3] ++ .dispatch ⟨.get, .root, "", "::1"⟩ 0 :: [])
      (init 0) = some _ := rfl
  rcases nodeInfo_told rfl h with ⟨entry, told, hentry, _, htold, hsent⟩
  refine ⟨_, entry, h, hentry, ?_⟩
  rw [hsent, htold]
  rfl

end DhtProxyServer

end Smoll.Opendht.Proxy
