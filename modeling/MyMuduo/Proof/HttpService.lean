import MyMuduo.Proof.HttpServer

/-!
# What the HTTP server does with its reads

* `keepAlive_service`: **the first keep-alive request of a connection is served, a second
  one is not.** `onMessage` never resets the parser of the connection, so the next line
  meets the state of a complete request and is an error.
* `segmentation`: a request that arrives in pieces is served as the whole request is
  exactly if the lines that are complete within a piece make up a request with the same
  fields, in time. `Cut.intact_of_lines`: cuts behind a CR LF do no harm.
-/

namespace MyMuduo

open Lib

/-! ## Sessions -/

namespace HttpRequestParser

/-- The parser waits for more lines of a request. -/
def Waiting (p : HttpRequestParser) : Prop :=
  p.m_state = .kParseRequestLine ∨ p.m_state = .kParseHeader

/-- A parser that waits now waited before. -/
theorem waiting_of_feed {p : HttpRequestParser} (hp : p.NoBody) {ls : List Bytes}
    (h : (p.feed ls).Waiting) : p.Waiting := by
  cases hst : p.m_state with
  | kParseRequestLine => exact Or.inl hst
  | kParseHeader => exact Or.inr hst
  | kParseBody => exact absurd hst hp
  | kParseErrno =>
    rw [feed_errno hst] at h
    exact h
  | kParseGotCompleteRequest =>
    by_cases hls : ls = []
    · subst hls
      exact h
    · rw [feed_after_complete hst hls] at h
      rcases h with h | h <;> cases h

end HttpRequestParser

namespace Session

open HttpRequestParser

variable (cb : HttpResponseCallback) {s : Session}

theorem receiveAll_append (s : Session) (cs ds : List Bytes) :
    s.receiveAll cb (cs ++ ds) = (s.receiveAll cb cs).receiveAll cb ds := List.foldl_append

theorem receiveAll_cons (s : Session) (c : Bytes) (cs : List Bytes) :
    s.receiveAll cb (c :: cs) = (s.receive cb (lines c)).receiveAll cb cs := rfl

@[simp] theorem parser_receive (s : Session) (ls : List Bytes) :
    (s.receive cb ls).parser = s.parser.feed ls := by
  unfold receive
  dsimp only
  split <;> rfl

theorem receive_waiting {ls : List Bytes} (h : (s.parser.feed ls).Waiting) :
    s.receive cb ls = { s with parser := s.parser.feed ls } := by
  unfold receive
  dsimp only
  rcases h with h | h <;> rw [h]

theorem receive_complete {ls : List Bytes} {request : HttpRequest}
    (h : s.parser.feed ls = ⟨request, .kParseGotCompleteRequest⟩) :
    s.receive cb ls =
      { s with parser := ⟨request, .kParseGotCompleteRequest⟩, calls := s.calls ++ [request] }.say
        (HttpServer.responseTo cb request).bytes
        (HttpServer.responseTo cb request).m_close_connection := by
  unfold receive
  dsimp only
  rw [h]

theorem receive_errno (s : Session) {ls : List Bytes} (h : (s.parser.feed ls).m_state = .kParseErrno) :
    s.receive cb ls = { s with parser := s.parser.feed ls }.say HttpServer.badRequest true := by
  unfold receive
  dsimp only
  rw [h]

/-- A session that may no longer send stays so. -/
theorem receiveAll_disconnected (h : s.connected = false) (cs : List Bytes) :
    (s.receiveAll cb cs).connected = false := by
  induction cs generalizing s with
  | nil => exact h
  | cons c cs ih =>
    apply ih
    unfold receive say
    dsimp only
    split <;> simp [h]

/-- The calls are a history. -/
theorem calls_prefix (s : Session) (cs : List Bytes) : s.calls <+: (s.receiveAll cb cs).calls := by
  induction cs generalizing s with
  | nil => exact List.prefix_rfl
  | cons c cs ih =>
    refine List.IsPrefix.trans ?_ (ih _)
    unfold receive say
    dsimp only
    split
    · exact List.prefix_rfl
    · exact List.prefix_append _ _
    all_goals exact List.prefix_rfl

/-- After an error there are no more calls, -/
theorem receiveAll_errno (h : s.parser.m_state = .kParseErrno) (cs : List Bytes) :
    (s.receiveAll cb cs).calls = s.calls ∧
      (s.connected = false → (s.receiveAll cb cs).sent = s.sent) := by
  induction cs generalizing s with
  | nil => exact ⟨rfl, fun _ => rfl⟩
  | cons c cs ih =>
    have hp := feed_errno h (lines c)
    have hr : s.receive cb (lines c) = _ := receive_errno cb s (by rw [hp]; exact h)
    rw [hp] at hr
    obtain ⟨h1, h2⟩ := ih (s := s.receive cb (lines c)) (by rw [hr]; exact h)
    rw [receiveAll_cons]
    refine ⟨by rw [h1, hr]; rfl, fun hc => ?_⟩
    rw [h2 (by rw [hr]; simp [say]), hr]
    simp [say, hc]

/-- As long as the parser waits, nothing is called and nothing is sent. -/
theorem receiveAll_waiting {cs : List Bytes}
    (h : (HttpRequestParser.new.feed (cs.flatMap lines)).Waiting) :
    Session.new.receiveAll cb cs =
      { Session.new with parser := HttpRequestParser.new.feed (cs.flatMap lines) } := by
  -- by the last read: the reads before it decide which case it falls into
  induction cs using List.reverseRecOn with
  | nil => rfl
  | append_singleton cs c ih =>
    rw [List.flatMap_append, List.flatMap_singleton, feed_append new_noBody] at h
    have hw := waiting_of_feed (feed_noBody new_noBody _) h
    rw [receiveAll_append, ih hw, receiveAll_cons, receive_waiting cb h, List.flatMap_append,
      List.flatMap_singleton, feed_append new_noBody]
    rfl

/-- The session after the read that completes a request. -/
def answered (request : HttpRequest) : Session where
  parser := ⟨request, .kParseGotCompleteRequest⟩
  connected := !(HttpServer.responseTo cb request).m_close_connection
  sent := [(HttpServer.responseTo cb request).bytes]
  calls := [request]

theorem receiveAll_complete (pre : List Bytes) {c : Bytes} {request : HttpRequest}
    (h₁ : (HttpRequestParser.new.feed (pre.flatMap lines)).Waiting)
    (h₂ : HttpRequestParser.new.feed (pre.flatMap lines ++ lines c) =
      ⟨request, .kParseGotCompleteRequest⟩) (post : List Bytes) :
    Session.new.receiveAll cb (pre ++ c :: post) = (answered cb request).receiveAll cb post := by
  rw [feed_append new_noBody] at h₂
  rw [receiveAll_append, receiveAll_waiting cb h₁, receiveAll_cons, receive_complete cb h₂]
  simp [say, answered, Session.new]

/-- The whole request in one read. -/
theorem receiveAll_request (r : Request) (hl : lines r.encode = r.lines) :
    Session.new.receiveAll cb [r.encode] = answered cb r.denote := by
  refine receiveAll_complete cb [] (Or.inl rfl) ?_ []
  rw [List.flatMap_nil, List.nil_append, hl, feed_request]

/-- A further line after the answer is an error. -/
theorem answered_line (request : HttpRequest) {ls : List Bytes} (hls : ls ≠ []) :
    (answered cb request).receive cb ls =
      { answered cb request with parser := ⟨request, .kParseErrno⟩ }.say HttpServer.badRequest true := by
  have hp : (answered cb request).parser.feed ls = ⟨request, .kParseErrno⟩ :=
    feed_after_complete rfl hls
  rw [receive_errno cb _ (by rw [hp]), hp]

/-- A read without a line after the answer answers again. -/
theorem answered_nil (request : HttpRequest) :
    ((answered cb request).receive cb []).calls = [request, request] := rfl

end Session

/-! ## Well-formed requests as byte strings -/

theorem Request.isLine (r : Request) : ∀ l ∈ r.lines, IsLine l := by
  intro l hl
  rw [Request.lines, List.mem_append, List.mem_cons, List.mem_map, List.mem_singleton] at hl
  rcases hl with (rfl | ⟨h, hh, rfl⟩) | rfl
  · exact r.line_isLine
  · exact r.headers_isLine h hh
  · rfl

theorem Request.lines_encode_eq (r : Request) : Lib.lines r.encode = r.lines := by
  have h := lines_encode r.isLine []
  rwa [List.append_nil, lines_nil, List.append_nil] at h

theorem Request.encode_ne_nil (r : Request) : r.encode ≠ [] := by
  intro h
  have := r.lines_encode_eq
  rw [h] at this
  cases this

/-! ## Keep-alive -/

/-- An HTTP/1.1 request that asks to keep the connection. -/
structure Request.KeepAlive (r : Request) : Prop where
  version : r.line.version = .kHttp11
  connection : r.headerValue (ascii "Connection") = some (ascii "Keep-Alive")

theorem closeRequested_keepAlive {r : Request} (h : r.KeepAlive) :
    HttpServer.closeRequested r.denote = false := by
  have hh : r.denote.header (ascii "Connection") = ascii "Keep-Alive" := by
    simp only [HttpRequest.header, Request.denote, h.connection, Option.getD_some]
  have hv : r.denote.m_version = .kHttp11 := h.version
  simp [HttpServer.closeRequested, hh, hv]

/-- The requests, each in one read of a connection just accepted, were served: one call
each with its fields, one response each and nothing else sent, and no shutdown. -/
def KeepAliveServed (cb : HttpResponseCallback) (ep : Epoller) (self loop fd : ℕ)
    (reqs : List (Request × Except ℕ ℕ)) : Prop :=
  ∃ s₀ s, HttpRun.accept ep self loop fd = .ok s₀ ∧
    s₀.serve cb (reqs.map fun x => (x.1.encode, x.2)) = .ok s ∧
    s.calls = reqs.map (fun x => x.1.denote) ∧
    s.conn.sent = reqs.map (fun x => (HttpServer.responseTo cb x.1.denote).bytes) ∧
    s.conn.m_state = .kConnected

/-- What the server makes of reads on a connection just accepted. -/
theorem served_session (cb : HttpResponseCallback) (ep : Epoller) (self loop fd : ℕ)
    (reads : List (Bytes × Except ℕ ℕ)) (hne : ∀ x ∈ reads, x.1 ≠ []) :
    ∃ s₀ s, HttpRun.accept ep self loop fd = .ok s₀ ∧ s₀.serve cb reads = .ok s ∧
      s.Refines (Session.new.receiveAll cb (reads.map Prod.fst)) := by
  obtain ⟨s₀, hs₀, h₀⟩ := HttpRun.accept_refines ep self loop fd
  obtain ⟨s, hs, h⟩ := HttpRun.serve_refines cb h₀ hne
  exact ⟨s₀, s, hs₀, hs, h⟩

theorem HttpRun.Refines.connected_iff {s : HttpRun} {a : Session} (h : s.Refines a) :
    s.conn.m_state = .kConnected ↔ a.connected = true := by
  rw [h.state]
  cases a.connected <;> decide

/-- **Keep-alive service, exactly.** With a response callback that does not ask to close,
keep-alive requests are served if there is at most one of them: the parser is never reset,
so the first line of a second request is an error. -/
theorem keepAlive_service (cb : HttpResponseCallback)
    (hcb : ∀ request, (cb request (HttpResponse.new false)).m_close_connection = false)
    (ep : Epoller) (self loop fd : ℕ) (reqs : List (Request × Except ℕ ℕ))
    (hka : ∀ x ∈ reqs, x.1.KeepAlive) :
    KeepAliveServed cb ep self loop fd reqs ↔ reqs.length ≤ 1 := by
  have hne : ∀ x ∈ reqs.map (fun x => (x.1.encode, x.2)), x.1 ≠ [] := by
    intro x hx
    obtain ⟨y, -, rfl⟩ := List.mem_map.1 hx
    exact y.1.encode_ne_nil
  obtain ⟨s₀, s, hs₀, hs, href⟩ := served_session cb ep self loop fd _ hne
  rw [List.map_map] at href
  -- a keep-alive request does not make the server close
  have hopen : ∀ x ∈ reqs, (HttpServer.responseTo cb x.1.denote).m_close_connection = false := by
    intro x hx
    rw [HttpServer.responseTo, closeRequested_keepAlive (hka x hx)]
    exact hcb _
  have hiff : KeepAliveServed cb ep self loop fd reqs ↔
      s.calls = reqs.map (fun x => x.1.denote) ∧
      s.conn.sent = reqs.map (fun x => (HttpServer.responseTo cb x.1.denote).bytes) ∧
      s.conn.m_state = .kConnected := by
    constructor
    · rintro ⟨t₀, t, ht₀, ht, h⟩
      rw [hs₀] at ht₀; cases ht₀
      rw [hs] at ht; cases ht
      exact h
    · intro h
      exact ⟨s₀, s, hs₀, hs, h⟩
  rw [hiff, href.connected_iff, href.calls, href.sent]
  rcases reqs with _ | ⟨x, _ | ⟨y, rest⟩⟩
  · simp [Session.receiveAll, Session.new]
  · have h1 : Session.new.receiveAll cb [x.1.encode] = Session.answered cb x.1.denote :=
      Session.receiveAll_request cb x.1 x.1.lines_encode_eq
    have hx := hopen x List.mem_cons_self
    simp only [List.map_cons, List.map_nil, Function.comp, h1, Session.answered, hx]
    simp
  · -- the second request ends the session
    have h2 : (Session.new.receiveAll cb (x.1.encode :: y.1.encode ::
        rest.map (Prod.fst ∘ fun x => (x.1.encode, x.2)))).connected = false := by
      have h1 := Session.receiveAll_request cb x.1 x.1.lines_encode_eq
      rw [Session.receiveAll_cons] at h1
      rw [Session.receiveAll_cons, Session.receiveAll_cons]
      rw [show Session.receive cb Session.new (lines x.1.encode) = Session.answered cb x.1.denote from h1]
      apply Session.receiveAll_disconnected
      rw [y.1.lines_encode_eq, Session.answered_line cb _ (by simp [Request.lines])]
      simp [Session.say]
    simp only [List.map_cons, Function.comp] at h2 ⊢
    rw [h2]
    simp

/-- `GET / HTTP/1.1` with `Connection: Keep-Alive`. -/
def getKeepAlive : Request where
  line := ⟨.kGet, ascii "/", .kHttp11, ascii "HTTP/1.1", by decide, by decide, by decide, rfl⟩
  headers := [⟨ascii "Connection", ascii " Keep-Alive", by decide⟩]
  line_isLine := by decide
  headers_isLine := by decide

theorem getKeepAlive_keepAlive : getKeepAlive.KeepAlive := ⟨rfl, by decide⟩

theorem keepAlive_service_one :
    KeepAliveServed (fun _ response => response) .new 0 0 5 [(getKeepAlive, .ok 100)] := by
  refine (keepAlive_service _ (fun _ => rfl) _ _ _ _ _ ?_).2 le_rfl
  intro x hx
  rw [List.mem_singleton.1 hx]
  exact getKeepAlive_keepAlive

/-- The same request twice: the second one never reaches the callback. -/
theorem keepAlive_service_two :
    getKeepAlive.KeepAlive ∧
      ¬KeepAliveServed (fun _ response => response) .new 0 0 5
        [(getKeepAlive, .ok 100), (getKeepAlive, .ok 100)] := by
  refine ⟨getKeepAlive_keepAlive, ?_⟩
  rintro ⟨s₀, s, h₀, h, hcalls, -⟩
  have hlen : ((HttpRun.accept .new 0 0 5).bind fun s₀ => (s₀.serve (fun _ response => response)
      ([(getKeepAlive, .ok 100), (getKeepAlive, .ok 100)].map fun x => (x.1.encode, x.2))).map
        fun s => s.calls.length) = .ok 1 := by decide +kernel
  rw [h₀, Except.bind, h] at hlen
  simp only [Except.map, hcalls] at hlen
  cases hlen

/-! ## Segmentation -/

/-- A way of cutting a request into pieces, each delivered by a read of its own; beside
each piece stands the result of the `::write` that the read may come to. -/
structure Cut (r : Request) where
  reads : List (Bytes × Except ℕ ℕ)
  nonempty : ∀ x ∈ reads, x.1 ≠ []
  whole : (reads.map Prod.fst).flatten = r.encode

namespace Cut

variable {r : Request}

def pieces (c : Cut r) : List Bytes := c.reads.map Prod.fst

/-- On a connection just accepted, the pieces come to what the whole request comes to: one
call, with the same request, and the same bytes sent and decision to close. -/
def SameAsWhole (cb : HttpResponseCallback) (ep : Epoller) (self loop fd : ℕ) (w : Except ℕ ℕ)
    (c : Cut r) : Prop :=
  ∃ s₀ s₁ s, HttpRun.accept ep self loop fd = .ok s₀ ∧ s₀.serve cb [(r.encode, w)] = .ok s₁ ∧
    s₀.serve cb c.reads = .ok s ∧ s.calls.length = 1 ∧ s.calls = s₁.calls ∧
    s.conn.sent = s₁.conn.sent ∧ s.conn.m_state = s₁.conn.m_state

/-- The lines that are complete within a piece are, up to some piece, those of a request
with the fields of `r`; the last of them lies in that piece; and either no piece follows,
or the response closes the connection and the next piece completes a line. -/
def Intact (cb : HttpResponseCallback) (c : Cut r) : Prop :=
  ∃ (pre : List Bytes) (d : Bytes) (post : List Bytes) (r' : Request),
    c.pieces = pre ++ d :: post ∧ pre.flatMap lines ++ lines d = r'.lines ∧ lines d ≠ [] ∧
    r'.denote = r.denote ∧
    (post = [] ∨ (HttpServer.responseTo cb r.denote).m_close_connection = true ∧
      ∃ e es, post = e :: es ∧ lines e ≠ [])

end Cut

open HttpRequestParser in
/-- How reads begin: the parser still waits, or some read completes a request, or an error
comes first and there is no call. -/
theorem Session.receiveAll_cases (cb : HttpResponseCallback) (cs : List Bytes) :
    (HttpRequestParser.new.feed (cs.flatMap lines)).Waiting ∨
      (∃ pre d post request, cs = pre ++ d :: post ∧
        (HttpRequestParser.new.feed (pre.flatMap lines)).Waiting ∧
        HttpRequestParser.new.feed (pre.flatMap lines ++ lines d) =
          ⟨request, .kParseGotCompleteRequest⟩) ∨
      ((Session.new.receiveAll cb cs).parser.m_state = .kParseErrno ∧
        (Session.new.receiveAll cb cs).calls = []) := by
  induction cs using List.reverseRecOn with
  | nil => exact Or.inl (Or.inl rfl)
  | append_singleton cs c ih =>
    rcases ih with hw | ⟨pre, d, post, request, rfl, h1, h2⟩ | ⟨h1, h2⟩
    · -- the parser waited until this read
      have hnb := feed_noBody new_noBody (cs.flatMap lines ++ lines c)
      cases hst : (HttpRequestParser.new.feed (cs.flatMap lines ++ lines c)).m_state with
      | kParseRequestLine =>
        left; rw [List.flatMap_append, List.flatMap_singleton]; exact Or.inl hst
      | kParseHeader =>
        left; rw [List.flatMap_append, List.flatMap_singleton]; exact Or.inr hst
      | kParseBody => exact absurd hst hnb
      | kParseGotCompleteRequest =>
        refine Or.inr (Or.inl ⟨cs, c, [],
          (HttpRequestParser.new.feed (cs.flatMap lines ++ lines c)).m_request, rfl, hw, ?_⟩)
        rw [← hst]
      | kParseErrno =>
        rw [feed_append new_noBody] at hst
        have hr := receive_errno cb
          { Session.new with parser := HttpRequestParser.new.feed (cs.flatMap lines) } hst
        refine Or.inr (Or.inr ?_)
        rw [receiveAll_append, receiveAll_waiting cb hw, receiveAll_cons, hr]
        exact ⟨hst, rfl⟩
    · exact Or.inr (Or.inl ⟨pre, d, post ++ [c], request, by simp, h1, h2⟩)
    · have hp : ((Session.new.receiveAll cb cs).receiveAll cb [c]).parser =
          (Session.new.receiveAll cb cs).parser := by
        rw [receiveAll_cons, show ∀ s : Session, s.receiveAll cb [] = s from fun _ => rfl,
          parser_receive, feed_errno h1]
      refine Or.inr (Or.inr ?_)
      rw [receiveAll_append, hp, (receiveAll_errno cb h1 [c]).1]
      exact ⟨h1, h2⟩

open HttpRequestParser in
/-- The pieces of an intact cut come to the answer to the whole request. -/
theorem Cut.Intact.session {r : Request} {c : Cut r} {cb : HttpResponseCallback} (h : c.Intact cb) :
    ∃ p, Session.new.receiveAll cb c.pieces = { Session.answered cb r.denote with parser := p } := by
  obtain ⟨pre, d, post, r', hcs, hlines, hd, hden, hpost⟩ := h
  have hw : (new.feed (pre.flatMap lines)).Waiting := feed_prefix r' hlines.symm hd
  have hc : new.feed (pre.flatMap lines ++ lines d) = ⟨r.denote, .kParseGotCompleteRequest⟩ := by
    rw [hlines, feed_request, hden]
  rw [hcs, Session.receiveAll_complete cb pre hw hc]
  rcases hpost with rfl | ⟨hclose, e, es, rfl, he⟩
  · exact ⟨_, rfl⟩
  · -- the next line is an error, which a closed session does not answer
    rw [Session.receiveAll_cons, Session.answered_line cb _ he]
    set s : Session := Session.say _ HttpServer.badRequest true with hs
    have hconn : s.connected = false := by simp [hs, Session.say]
    obtain ⟨h1, h2⟩ := Session.receiveAll_errno cb (s := s) rfl es
    have h3 := Session.receiveAll_disconnected cb hconn es
    have hsent : s.sent = (Session.answered cb r.denote).sent := by
      simp [hs, Session.say, Session.answered, hclose]
    refine ⟨(s.receiveAll cb es).parser, ?_⟩
    rcases hfin : s.receiveAll cb es with ⟨p, b, st, cl⟩
    rw [hfin] at h1 h2 h3
    simp only at h1 h3
    have h2' := h2 hconn
    simp only at h2'
    subst h1 h3
    rw [h2', hsent]
    simp [hs, Session.say, Session.answered, hclose]

open HttpRequestParser in
/-- Pieces that come to the answer to the whole request are intact. -/
theorem Cut.intact_of_session {r : Request} {c : Cut r} {cb : HttpResponseCallback}
    (hlen : (Session.new.receiveAll cb c.pieces).calls.length = 1)
    (hcalls : (Session.new.receiveAll cb c.pieces).calls = [r.denote])
    (hconn : (Session.new.receiveAll cb c.pieces).connected = (Session.answered cb r.denote).connected) :
    c.Intact cb := by
  rcases Session.receiveAll_cases cb c.pieces with hw | ⟨pre, d, post, request, hcs, hw, hc⟩ | ⟨-, h0⟩
  · -- still waiting: no call
    rw [Session.receiveAll_waiting cb hw] at hlen
    cases hlen
  · rw [hcs, Session.receiveAll_complete cb pre hw hc] at hlen hcalls hconn
    -- the first call is the only one
    have hpre := Session.calls_prefix cb (Session.answered cb request) post
    have hreq : request = r.denote := by
      rw [hcalls] at hpre
      simpa [Session.answered] using hpre
    subst hreq
    have hd : lines d ≠ [] := by
      intro h0
      rw [h0, List.append_nil] at hc
      rw [hc] at hw
      rcases hw with hw | hw <;> cases hw
    obtain ⟨r', hr', hden⟩ : ∃ r' : Request, pre.flatMap lines ++ lines d = r'.lines ∧
        (new.feed (pre.flatMap lines ++ lines d)).m_request = r'.denote := by
      refine feed_complete ?_ (by rw [hc])
      intro l hl
      rcases List.mem_append.1 hl with hl | hl
      · obtain ⟨x, -, hx⟩ := List.mem_flatMap.1 hl
        exact lines_isLine hx
      · exact lines_isLine hl
    rw [hc] at hden
    refine ⟨pre, d, post, r', hcs, hr', hd, hden.symm, ?_⟩
    rcases post with _ | ⟨e, es⟩
    · exact Or.inl rfl
    · right
      by_cases he : lines e = []
      · -- a read without a line would be answered once more
        rw [Session.receiveAll_cons, he] at hlen
        have h2 := (Session.calls_prefix cb ((Session.answered cb r.denote).receive cb []) es).length_le
        rw [hlen, Session.answered_nil] at h2
        simp at h2
      · refine ⟨?_, e, es, rfl, he⟩
        rw [Session.receiveAll_cons, Session.answered_line cb _ he,
          Session.receiveAll_disconnected cb (by simp [Session.say])] at hconn
        simpa [Session.answered] using hconn
  · rw [h0] at hlen
    cases hlen

/-- **Segmentation, exactly.** A request cut into pieces is served as the whole request is
if and only if the cut is intact. -/
theorem segmentation (cb : HttpResponseCallback) (ep : Epoller) (self loop fd : ℕ) (w : Except ℕ ℕ)
    {r : Request} (c : Cut r) : c.SameAsWhole cb ep self loop fd w ↔ c.Intact cb := by
  -- both ways of delivery refine a session on a fresh connection
  obtain ⟨s₀, s, hs₀, hs, href⟩ := served_session cb ep self loop fd _ c.nonempty
  obtain ⟨t₀, s₁, ht₀, hs₁, href₁⟩ := served_session cb ep self loop fd [(r.encode, w)]
    (by intro x hx; rw [List.mem_singleton.1 hx]; exact r.encode_ne_nil)
  rw [hs₀] at ht₀
  cases ht₀
  rw [show [(r.encode, w)].map Prod.fst = [r.encode] from rfl,
    Session.receiveAll_request cb r r.lines_encode_eq] at href₁
  change s.Refines (Session.new.receiveAll cb c.pieces) at href
  constructor
  · rintro ⟨t₀, t₁, t, h₀, h₁, h, hlen, hcalls, -, hst⟩
    rw [hs₀] at h₀; cases h₀
    rw [hs₁] at h₁; cases h₁
    rw [hs] at h; cases h
    rw [href.calls] at hlen hcalls
    rw [href₁.calls] at hcalls
    refine Cut.intact_of_session hlen hcalls ?_
    rw [Bool.eq_iff_iff, ← href.connected_iff, ← href₁.connected_iff, hst]
  · intro h
    obtain ⟨p, hp⟩ := h.session
    rw [hp] at href
    refine ⟨s₀, s₁, s, hs₀, hs₁, hs, ?_, ?_, ?_, ?_⟩
    · rw [href.calls]; rfl
    · rw [href.calls, href₁.calls]
    · rw [href.sent, href₁.sent]
    · rw [href.state, href₁.state]

/-- The request in two pieces, cut behind its first byte: the rest of the request line is
no request line. -/
def getCut : Cut getKeepAlive where
  reads := [(getKeepAlive.encode.take 1, .ok 100), (getKeepAlive.encode.drop 1, .ok 100)]
  nonempty := by decide
  whole := by decide

theorem segmentation_one_byte :
    ¬getCut.SameAsWhole (fun _ response => response) .new 0 0 5 (.ok 100) := by
  rintro ⟨s₀, s₁, s, h₀, -, h, hlen, -⟩
  have h0 : ((HttpRun.accept .new 0 0 5).bind fun s₀ => (s₀.serve (fun _ response => response)
      getCut.reads).map fun s => s.calls.length) = .ok 0 := by decide +kernel
  rw [h₀, Except.bind, h] at h0
  simp only [Except.map, hlen] at h0
  cases h0

/-- **Cuts behind a CR LF do no harm**: a cut whose pieces consist of whole lines is
intact. -/
theorem Cut.intact_of_lines (cb : HttpResponseCallback) {r : Request} {c : Cut r}
    (h : ∀ p ∈ c.pieces, p = encodeLines (lines p)) : c.Intact cb := by
  have hnil : c.pieces ≠ [] := by
    intro h0
    have := c.whole
    rw [show c.reads.map Prod.fst = [] from h0] at this
    exact r.encode_ne_nil this.symm
  -- the lines of the pieces are the lines of the request
  have hlines : ∀ ps : List Bytes, (∀ p ∈ ps, p = encodeLines (lines p)) →
      ps.flatMap lines = lines ps.flatten := by
    intro ps
    induction ps with
    | nil => intro _; rfl
    | cons p ps ih =>
      intro hps
      have hp := hps p List.mem_cons_self
      rw [List.flatMap_cons, ih fun q hq => hps q (List.mem_cons_of_mem _ hq), List.flatten_cons]
      conv_rhs => rw [hp, lines_encode fun l hl => lines_isLine hl]
  have hall : c.pieces.flatMap lines = r.lines := by
    rw [hlines _ h, show c.pieces.flatten = r.encode from c.whole, r.lines_encode_eq]
  obtain ⟨pre, d, hcs⟩ : ∃ pre d, c.pieces = pre ++ [d] :=
    ⟨_, _, (List.dropLast_append_getLast hnil).symm⟩
  have hmem : d ∈ c.pieces := by rw [hcs]; simp
  refine ⟨pre, d, [], r, hcs, ?_, ?_, rfl, Or.inl rfl⟩
  · rw [← hall, hcs, List.flatMap_append, List.flatMap_singleton]
  · intro h0
    have hd := h d hmem
    obtain ⟨x, hx, rfl⟩ := List.mem_map.1 hmem
    rw [h0] at hd
    exact c.nonempty x hx hd

end MyMuduo
