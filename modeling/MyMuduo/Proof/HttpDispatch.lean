import MyMuduo.Lib.Run
import MyMuduo.Proof.HttpService
import MyMuduo.Proof.HttpVerdict

/-!
# How often a request is dispatched

`onMessage` looks at the state that the parser has, not at what the read changed in it. The
state of a complete request stays: a further read without a line finds it and dispatches the
request again. And since the bytes behind the last CR LF of a read are dropped, a CR LF at the
start of a read is an empty line even where the bytes before it do not end in CR LF.

* `receive_once`: a read of neither kind dispatches at most the first request, and only at the
  end of a header block.
* `dispatch_at_most_once`: **without such reads no more requests are dispatched than header
  blocks end in the bytes received**, at any time.
-/

namespace MyMuduo

open Lib

/-- At how many positions CR LF CR LF occurs. -/
def headerEnds (s : Bytes) : ℕ := s.tails.countP fun t => (CRLF ++ CRLF).isPrefixOf t

theorem headerEnds_pos {a b : Bytes} : 0 < headerEnds (a ++ CRLF ++ CRLF ++ b) := by
  rw [headerEnds, List.countP_pos_iff]
  refine ⟨CRLF ++ CRLF ++ b, ?_, ?_⟩
  · rw [List.mem_tails]
    exact ⟨a, by simp⟩
  · rw [List.isPrefixOf_iff_prefix]
    exact List.prefix_append _ _

/-- A header block ends in the bytes. -/
def Ended (s : Bytes) : Prop := ∃ a b, s = a ++ CRLF ++ CRLF ++ b

theorem Ended.append {s : Bytes} (h : Ended s) (t : Bytes) : Ended (s ++ t) := by
  obtain ⟨a, b, rfl⟩ := h
  exact ⟨a, b ++ t, by simp⟩

/-- An empty line behind another line. -/
theorem ended_of_lines {s : Bytes} (pre : List Bytes) {post : List Bytes} (hpre : pre ≠ [])
    (h : lines s = pre ++ [] :: post) : Ended s := by
  obtain ⟨t, rfl, ht⟩ := lines_split pre h
  obtain ⟨u, rfl, -⟩ := lines_split [[]] ht
  obtain ⟨l, ls, hls⟩ : ∃ l ls, pre = ls ++ [l] :=
    ⟨_, _, (List.dropLast_append_getLast hpre).symm⟩
  refine ⟨encodeLines ls ++ l, u, ?_⟩
  rw [hls]
  simp [encodeLines]

/-- An empty line at the front. -/
theorem starts_of_lines {s : Bytes} {post : List Bytes} (h : lines s = [] :: post) :
    ∃ t, s = CRLF ++ t := by
  obtain ⟨t, ht, -⟩ := lines_split [[]] h
  exact ⟨t, ht.trans (by simp [encodeLines])⟩

/-- The condition on a read, from the parser and the bytes received before it: after a
complete request it has a line, and after the request line it starts with an empty one only
where the bytes received end in CR LF. -/
structure ReadOk (p : HttpRequestParser) (received data : Bytes) : Prop where
  line : p.m_state = .kParseGotCompleteRequest → lines data ≠ []
  blank : p.m_state = .kParseHeader → CRLF <+: data → CRLF <:+ received

/-! ## One read -/

namespace Session

open HttpRequestParser

variable {a : Session} {received : Bytes}

theorem feed_of_header {p : HttpRequestParser} (h : p.m_state = .kParseHeader) (ls : List Bytes) :
    (p.feed ls).m_state = verdict (ls.dropWhile IsHeaderLine) := by
  obtain ⟨r, st⟩ := p
  cases h
  rw [feed_header]

/-- The response callback is called where the parser has a complete request. -/
theorem receive_calls (cb : HttpResponseCallback) (a : Session) (ls : List Bytes) :
    (a.receive cb ls).calls = a.calls ++
      if (a.parser.feed ls).m_state = .kParseGotCompleteRequest then [(a.parser.feed ls).m_request]
      else [] := by
  unfold receive
  dsimp only
  split
  · rename_i h
    simp [h, say]
  · rename_i h
    simp [h, say]
  · rename_i h
    simp [h]
  · rename_i h
    simp [h]
  · rename_i h
    simp [h]

/-- **Dispatched at most once**, after the end of a header block. -/
structure Once (a : Session) (received : Bytes) : Prop where
  noBody : a.parser.NoBody
  fresh : a.parser.m_state = .kParseRequestLine → a.parser = .new
  waiting : a.parser.Waiting → a.calls = []
  called : a.calls ≠ [] → a.calls.length = 1 ∧ Ended received

theorem once_new : Session.new.Once [] :=
  ⟨new_noBody, fun _ => rfl, fun _ => rfl, fun h => absurd rfl h⟩

/-- The lines of a read that completes a request end a header block. -/
theorem ended_of_complete (h : a.Once received) {data : Bytes} (hd : ReadOk a.parser received data)
    (hw : a.parser.Waiting)
    (hc : (a.parser.feed (lines data)).m_state = .kParseGotCompleteRequest) : Ended (received ++ data) := by
  rcases hw with hst | hst
  · -- the request line is among the lines
    rw [h.fresh hst, (feed_decides _).complete] at hc
    obtain ⟨l, hs, hl, -⟩ := hc
    obtain ⟨x, y, rfl⟩ := ended_of_lines (l.text :: hs) (by simp) hl
    exact ⟨received ++ x, y, by simp⟩
  · rw [feed_of_header hst] at hc
    obtain ⟨hs, hl, -⟩ := verdict_complete.1 hc
    cases hs with
    | nil =>
      -- the empty line comes first: the CR LF before it came earlier
      obtain ⟨t, rfl⟩ := starts_of_lines hl
      obtain ⟨x, rfl⟩ := hd.blank hst (List.prefix_append _ _)
      exact ⟨x, t, by simp⟩
    | cons l hs =>
      obtain ⟨x, y, rfl⟩ := ended_of_lines (l :: hs) (by simp) hl
      exact ⟨received ++ x, y, by simp⟩

/-- **One read.** -/
theorem receive_once (cb : HttpResponseCallback) (h : a.Once received) {data : Bytes}
    (hd : ReadOk a.parser received data) : (a.receive cb (lines data)).Once (received ++ data) := by
  have hp : (a.receive cb (lines data)).parser = a.parser.feed (lines data) := parser_receive cb a _
  have hcalls := receive_calls cb a (lines data)
  have hnb := feed_noBody h.noBody (lines data)
  refine ⟨by rw [hp]; exact hnb, ?_, ?_, ?_⟩
  · -- only a parser without a line is at the request line
    rw [hp]
    intro hst
    have hw := waiting_of_feed h.noBody (Or.inl hst)
    rcases hw with hw | hw
    · rw [h.fresh hw] at hst ⊢
      rw [(feed_decides _).requestLine] at hst
      rw [hst]
      rfl
    · rw [feed_of_header hw] at hst
      unfold verdict at hst
      split at hst <;> cases hst
  · rw [hp]
    intro hw
    have hne : (a.parser.feed (lines data)).m_state ≠ .kParseGotCompleteRequest := by
      rcases hw with hw | hw <;> rw [hw] <;> simp
    rw [hcalls, if_neg hne, List.append_nil]
    exact h.waiting (waiting_of_feed h.noBody hw)
  · intro hne
    by_cases hc : (a.parser.feed (lines data)).m_state = .kParseGotCompleteRequest
    · -- the request was not complete before, or the read has no line
      have hw : a.parser.Waiting := by
        cases hst : a.parser.m_state with
        | kParseRequestLine => exact Or.inl hst
        | kParseHeader => exact Or.inr hst
        | kParseBody => exact absurd hst h.noBody
        | kParseErrno =>
          rw [feed_errno hst, hst] at hc
          cases hc
        | kParseGotCompleteRequest =>
          rw [feed_after_complete hst (hd.line hst)] at hc
          cases hc
      rw [hcalls, if_pos hc, h.waiting hw]
      exact ⟨rfl, ended_of_complete h hd hw hc⟩
    · rw [hcalls, if_neg hc, List.append_nil] at hne ⊢
      obtain ⟨h1, h2⟩ := h.called hne
      exact ⟨h1, h2.append data⟩

end Session

/-! ## Whole runs -/

/-- A served connection with the bytes it has received. -/
structure HttpHistory where
  served : HttpRun
  received : Bytes

namespace HttpHistory

/-- One read that delivers at least a byte. -/
def step (cb : HttpResponseCallback) (s : HttpHistory) (x : Bytes × Except ℕ ℕ) : Option HttpHistory :=
  if x.1 = [] then none
  else (s.served.deliver cb x.1 x.2).toOption.map fun served => ⟨served, s.received ++ x.1⟩

/-- The condition on a read. -/
def Careful (s : HttpHistory) (x : Bytes × Except ℕ ℕ) : Prop :=
  ReadOk s.served.conn.m_httpParser s.received x.1

/-- A read is a read of the session. -/
theorem step_session (cb : HttpResponseCallback) {s : HttpHistory} {a : Session} (h : s.served.Refines a)
    {x : Bytes × Except ℕ ℕ} (hx : x.1 ≠ []) :
    ∃ s', s.step cb x = some s' ∧ s'.served.Refines (a.receive cb (lines x.1)) ∧
      s'.received = s.received ++ x.1 := by
  obtain ⟨t, ht, href⟩ := HttpRun.deliver_refines cb h hx x.2
  refine ⟨⟨t, s.received ++ x.1⟩, ?_, href, rfl⟩
  rw [step, if_neg hx, ht]
  rfl

/-- So is a run of reads. -/
theorem run_session (cb : HttpResponseCallback) {s : HttpHistory} {a : Session} (h : s.served.Refines a)
    (reads : List (Bytes × Except ℕ ℕ)) (hx : ∀ x ∈ reads, x.1 ≠ []) :
    ∃ s', run (step cb) s reads = some s' ∧ s'.served.Refines (a.receiveAll cb (reads.map Prod.fst)) ∧
      s'.received = s.received ++ (reads.map Prod.fst).flatten := by
  induction reads generalizing s a with
  | nil => exact ⟨s, rfl, h, by simp⟩
  | cons x reads ih =>
    obtain ⟨s₁, hs₁, href₁, hrec₁⟩ := step_session cb h (hx x List.mem_cons_self)
    obtain ⟨s', hs', href', hrec'⟩ := ih href₁ fun y hy => hx y (List.mem_cons_of_mem _ hy)
    refine ⟨s', ?_, href', ?_⟩
    · rw [run, hs₁]
      exact hs'
    · rw [hrec', hrec₁, List.map_cons, List.flatten_cons, List.append_assoc]

/-- **At most once.** For every sequence of reads on a connection, whatever `::write` returns,
in which every read meets the condition: at any time the response callback was called at most
as often as CR LF CR LF occurs in the bytes received so far. -/
theorem dispatch_at_most_once (cb : HttpResponseCallback) (ep : Epoller) (self loop fd : ℕ) {s₀ : HttpRun}
    (h₀ : HttpRun.accept ep self loop fd = .ok s₀) (reads : List (Bytes × Except ℕ ℕ))
    (hreads : Along (step cb) Careful ⟨s₀, []⟩ reads) (n : ℕ) {s : HttpHistory}
    (hrun : run (step cb) ⟨s₀, []⟩ (reads.take n) = some s) :
    s.served.calls.length ≤ headerEnds s.received := by
  obtain ⟨s₁, hs₁, hnew⟩ := HttpRun.accept_refines ep self loop fd
  rw [h₀] at hs₁
  cases hs₁
  -- the connection is a session, and the session dispatches once
  have hinv : ∃ a : Session, s.served.Refines a ∧ a.Once s.received := by
    refine run_inv_along (I := fun s => ∃ a : Session, s.served.Refines a ∧ a.Once s.received)
      (C := Careful) ?_ _ ⟨_, hnew, Session.once_new⟩ (along_take hreads n) hrun
    rintro s x s' ⟨a, href, honce⟩ hcare hs
    have hne : x.1 ≠ [] := by
      intro hnil
      rw [step, if_pos hnil] at hs
      cases hs
    obtain ⟨t, ht, href', hrec⟩ := step_session cb href hne
    rw [ht] at hs
    cases hs
    refine ⟨_, href', ?_⟩
    rw [hrec]
    exact Session.receive_once cb honce (href.parser ▸ hcare)
  obtain ⟨a, href, honce⟩ := hinv
  rw [href.calls]
  by_cases hcalls : a.calls = []
  · rw [hcalls]
    exact Nat.zero_le _
  · obtain ⟨hlen, x, y, he⟩ := honce.called hcalls
    have hpos := headerEnds_pos (a := x) (b := y)
    rw [he]
    omega

/-- A keep-alive request. -/
def keepAliveRead : Bytes := ascii "GET / HTTP/1.1\r\nConnection: Keep-Alive\r\n\r\n"

/-- The callback of an application that keeps the response as it is. -/
def plainCallback : HttpResponseCallback := fun _ response => response

/-- The request, cut behind its request line. -/
theorem dispatch_at_most_once_cut :
    ∃ s₀ s, HttpRun.accept Epoller.new 0 0 5 = .ok s₀ ∧
      run (step plainCallback) ⟨s₀, []⟩ [(keepAliveRead.take 16, .ok 0), (keepAliveRead.drop 16, .ok 999)] =
        some s ∧ s.served.calls.length = 1 ∧ s.served.calls.length ≤ headerEnds s.received := by
  obtain ⟨s₀, h₀, hnew⟩ := HttpRun.accept_refines Epoller.new 0 0 5
  obtain ⟨s, hs, href, -⟩ := run_session plainCallback (s := ⟨s₀, []⟩) hnew
    [(keepAliveRead.take 16, .ok 0), (keepAliveRead.drop 16, .ok 999)] (by decide)
  refine ⟨s₀, s, h₀, hs, by rw [href.calls]; decide +kernel, ?_⟩
  refine dispatch_at_most_once plainCallback Epoller.new 0 0 5 h₀
    [(keepAliveRead.take 16, .ok 0), (keepAliveRead.drop 16, .ok 999)] ⟨?_, fun s₁ hs₁ => ⟨?_, ?_⟩⟩ 2 hs
  · have hst : (⟨s₀, []⟩ : HttpHistory).served.conn.m_httpParser.m_state = .kParseRequestLine := by
      rw [hnew.parser]
      rfl
    exact ⟨fun h => absurd (hst.symm.trans h) (by simp), fun h => absurd (hst.symm.trans h) (by simp)⟩
  · -- the first read leaves the parser at the headers, and the second starts with one
    obtain ⟨t, ht, ht', -⟩ := step_session plainCallback (s := ⟨s₀, []⟩) hnew
      (x := (keepAliveRead.take 16, .ok 0)) (by decide)
    rw [hs₁] at ht
    cases ht
    have hst : s₁.served.conn.m_httpParser.m_state = .kParseHeader := by
      rw [ht'.parser, Session.parser_receive]
      decide +kernel
    exact ⟨fun h => absurd (hst.symm.trans h) (by simp), fun _ h => absurd h (by decide)⟩
  · exact fun _ _ => trivial

/-- The request, and then one byte: it is dispatched twice. -/
theorem dispatch_at_most_once_byte :
    ∃ s₀ s, HttpRun.accept Epoller.new 0 0 5 = .ok s₀ ∧
      run (step plainCallback) ⟨s₀, []⟩ [(keepAliveRead, .ok 999), ([120], .ok 999)] = some s ∧
      s.served.calls.length = 2 ∧ headerEnds s.received = 1 := by
  obtain ⟨s₀, h₀, hnew⟩ := HttpRun.accept_refines Epoller.new 0 0 5
  obtain ⟨s, hs, href, hrec⟩ := run_session plainCallback (s := ⟨s₀, []⟩) hnew
    [(keepAliveRead, .ok 999), ([120], .ok 999)] (by decide)
  refine ⟨s₀, s, h₀, hs, ?_, ?_⟩
  · rw [href.calls]
    decide +kernel
  · rw [hrec, List.nil_append]
    decide +kernel

end HttpHistory

end MyMuduo
