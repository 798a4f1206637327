import MyMuduo.Proof.HttpBody

/-!
# Does the connection stay open?

`handleRequest` compares the value of `Connection` with `Keep-Alive` for HTTP/1.1 and with `close`
for every other version, both in just that spelling. HTTP's rule (`Request.mustClose`) asks for the
other two words, in any spelling.

* `closeRequested_iff`: what the code decides, on the lines of the request.
* `persistence_iff`: **it follows the rule exactly for the requests that say one of the two words**
  (`Request.Decided`).
* `decided_iff_or`, `undecided_of_absent`: the condition for field names that differ in more than
  their spelling, and for a request without the field.
-/

namespace MyMuduo

open Lib HttpRequestParser

namespace Request

variable {r : Request}

/-! ## The field on the lines -/

/-- A field that is given once has the value of its line, wherever that stands. -/
theorem headerValue_iff (hn : (r.headers.map Header.field).Nodup) {field value : Bytes} :
    r.headerValue field = some value ↔ r.spells field value := by
  unfold headerValue
  constructor
  · intro h
    obtain ⟨x, hx, hvalue⟩ := Option.map_eq_some_iff.1 h
    have hmem := List.mem_of_find?_eq_some hx
    exact ⟨x, List.mem_reverse.1 hmem, by simpa using List.find?_some hx, hvalue⟩
  · rintro ⟨x, hx, hfield, hvalue⟩
    have hsome : (r.headers.reverse.find? (·.field = field)).isSome := by
      rw [List.find?_isSome]
      exact ⟨x, List.mem_reverse.2 hx, by simpa using hfield⟩
    obtain ⟨y, hy⟩ := Option.isSome_iff_exists.1 hsome
    have hmem := List.mem_reverse.1 (List.mem_of_find?_eq_some hy)
    have hfield' : y.field = field := by simpa using List.find?_some hy
    -- the names are distinct: it is the same line
    have hxy : y = x := List.inj_on_of_nodup_map hn hmem hx (hfield'.trans hfield.symm)
    rw [hy, Option.map_some, hxy, hvalue]

theorem header_iff (hn : (r.headers.map Header.field).Nodup) {field value : Bytes} (hv : value ≠ []) :
    r.denote.header field = value ↔ r.spells field value := by
  rw [← headerValue_iff hn]
  change (r.headerValue field).getD [] = value ↔ _
  cases r.headerValue field with
  | none => simp [hv.symm]
  | some v => simp

/-- What is said in one spelling is said. -/
theorem asks_of_spells {field value word : Bytes} (hword : folded word = value.map toLower)
    (h : r.spells field value) : r.asks field word := by
  obtain ⟨x, hx, hfield, hvalue⟩ := h
  refine ⟨x, hx, by rw [hfield], ?_⟩
  rw [hword, ← hvalue]
  rfl

/-! ## The decision -/

/-- What the code decides. -/
theorem closeRequested_iff (hn : (r.headers.map Header.field).Nodup) :
    HttpServer.closeRequested r.denote = true ↔
      if r.line.version = .kHttp11 then ¬r.spells (ascii "Connection") (ascii "Keep-Alive")
      else r.spells (ascii "Connection") (ascii "close") := by
  have hversion : r.denote.m_version = r.line.version := rfl
  unfold HttpServer.closeRequested
  dsimp only
  rw [hversion, ← header_iff hn (by decide), ← header_iff hn (by decide)]
  by_cases hv : r.line.version = .kHttp11
  · rw [if_pos hv, if_pos hv, decide_eq_true_iff]
  · rw [if_neg hv, if_neg hv, decide_eq_true_iff]

/-- The request says exactly one of: the word that ends its connection (HTTP/1.1) or keeps it
(HTTP/1.0), in any spelling; the other word, in the spelling the code looks for. -/
def Decided (r : Request) : Prop :=
  if r.line.version = .kHttp11 then
    Xor (r.asks (ascii "Connection") (ascii "close")) (r.spells (ascii "Connection") (ascii "Keep-Alive"))
  else
    Xor (r.asks (ascii "Connection") (ascii "keep-alive")) (r.spells (ascii "Connection") (ascii "close"))

instance (r : Request) : Decidable r.Decided :=
  inferInstanceAs (Decidable (if r.line.version = .kHttp11 then _ else _))

/-- A request alone in the buffer is parsed. -/
theorem parse_request (r : Request) {b : Buffer} (hb : b.Ok) (hread : b.readable = r.encode) :
    (new.parseContent b).1 = ⟨r.denote, .kParseGotCompleteRequest⟩ :=
  ((parse_stops_iff r [] hb (by rw [hread, List.append_nil])).2 rfl).1

/-- **The connection stays open as HTTP says, exactly behind a decided request.** For every well-formed
request, with any header lines in any order but distinct field names, in a buffer of any size, and every
callback that leaves the flag alone: the request is parsed, and its response is marked close exactly as
HTTP's rule has it if and only if the request is decided. -/
theorem persistence_iff (cb : HttpResponseCallback)
    (hcb : ∀ request response, (cb request response).m_close_connection = response.m_close_connection)
    (r : Request) (hn : (r.headers.map Header.field).Nodup) {b : Buffer} (hb : b.Ok)
    (hread : b.readable = r.encode) :
    (new.parseContent b).1 = ⟨r.denote, .kParseGotCompleteRequest⟩ ∧
      (((HttpServer.responseTo cb (new.parseContent b).1.m_request).m_close_connection = true ↔
        r.mustClose) ↔ r.Decided) := by
  have hparse := parse_request r hb hread
  refine ⟨hparse, ?_⟩
  have hflag : (HttpServer.responseTo cb r.denote).m_close_connection =
      HttpServer.closeRequested r.denote := hcb r.denote _
  rw [hparse, hflag, closeRequested_iff hn]
  unfold mustClose Decided
  -- "not the one exactly if the other" is "exactly one of them"
  by_cases hv : r.line.version = .kHttp11
  · rw [if_pos hv, if_pos hv, if_pos hv, xor_def]
    tauto
  · rw [if_neg hv, if_neg hv, if_neg hv, xor_def]
    tauto

theorem persistence_iff_keepAlive :
    (new.parseContent (holding 16 getKeepAlive.encode)).1 = ⟨getKeepAlive.denote, .kParseGotCompleteRequest⟩ ∧
      ((HttpServer.responseTo (fun _ response => response)
          (new.parseContent (holding 16 getKeepAlive.encode)).1.m_request).m_close_connection = true ↔
        getKeepAlive.mustClose) := by
  have hold := holding_spec (show kPrePendIndex ≤ 16 by decide) getKeepAlive.encode
  have h := persistence_iff _ (fun _ _ => rfl) getKeepAlive (by decide) hold.1 hold.2
  exact ⟨h.1, h.2.2 (by decide)⟩

theorem connection_valid : 58 ∉ ascii "Connection" := by decide

/-- The request line of the source's own comment. -/
def documentedLine : RequestLine :=
  { getKeepAlive.line with target := ascii "url", target_valid := by decide }

/-- Its header lines. -/
def documentedHeaders : List Header :=
  [⟨ascii "Host", ascii " www.baidu.com", by decide⟩,
    ⟨ascii "Connection", ascii " keep-alive", connection_valid⟩]

theorem documentedLine_isLine : IsLine documentedLine.text := by decide

theorem documentedHeaders_isLine : ∀ h ∈ documentedHeaders, IsLine h.text := by decide

def documented : Request :=
  ⟨documentedLine, documentedHeaders, documentedLine_isLine, documentedHeaders_isLine⟩

/-- It is closed, though it asks to keep the connection. -/
theorem documented_closed :
    ¬∀ (cb : HttpResponseCallback) (r : Request) (b : Buffer),
      (∀ request response, (cb request response).m_close_connection = response.m_close_connection) →
      (r.headers.map fun h => folded h.field).Nodup → b.Ok → b.readable = r.encode →
      ((HttpServer.responseTo cb (new.parseContent b).1.m_request).m_close_connection = true ↔
        r.mustClose) := by
  intro h
  obtain ⟨hok, hread⟩ := holding_spec (show kPrePendIndex ≤ 16 by decide) documented.encode
  have hclose := h (fun _ response => response) documented _ (fun _ _ => rfl) (by decide) hok hread
  rw [parse_request documented hok hread] at hclose
  have hmust := hclose.1 (by decide)
  revert hmust
  decide

/-! ## Which requests are decided -/

/-- With field names that differ in more than their spelling, no request says both words. -/
theorem decided_iff_or (hn : (r.headers.map fun h => folded h.field).Nodup) :
    r.Decided ↔ if r.line.version = .kHttp11 then
        r.asks (ascii "Connection") (ascii "close") ∨ r.spells (ascii "Connection") (ascii "Keep-Alive")
      else r.asks (ascii "Connection") (ascii "keep-alive") ∨
        r.spells (ascii "Connection") (ascii "close") := by
  have hboth : ∀ (other : Bytes) {field value word : Bytes}, folded other = value.map toLower →
      folded other ≠ folded word → r.asks field word → ¬r.spells field value := by
    intro other field value word hother hne hasks hspells
    obtain ⟨x, hx, hxf, hxv⟩ := hasks
    obtain ⟨y, hy, hyf, hyv⟩ := asks_of_spells hother hspells
    have hxy : x = y := List.inj_on_of_nodup_map hn hx hy (hxf.trans hyf.symm)
    rw [hxy, hyv] at hxv
    exact hne hxv
  have hxor : ∀ {p q : Prop}, (p → ¬q) → (Xor p q ↔ p ∨ q) := by
    intro p q hpq
    rw [xor_def]
    tauto
  unfold Decided
  by_cases hv : r.line.version = .kHttp11
  · rw [if_pos hv, if_pos hv]
    exact hxor (hboth (ascii "keep-alive") (by decide) (by decide))
  · rw [if_neg hv, if_neg hv]
    exact hxor (hboth (ascii "close") (by decide) (by decide))

/-- **Without the field the code is always wrong**: it closes what HTTP/1.1 keeps, and keeps what
HTTP/1.0 closes. -/
theorem undecided_of_absent (h : ∀ x ∈ r.headers, folded x.field ≠ folded (ascii "Connection")) :
    ¬r.Decided := by
  have hasks : ∀ word, ¬r.asks (ascii "Connection") word := by
    rintro word ⟨x, hx, hfield, -⟩
    exact h x hx hfield
  have hspells : ∀ value, ¬r.spells (ascii "Connection") value := by
    rintro value ⟨x, hx, hfield, -⟩
    exact h x hx (by rw [hfield])
  unfold Decided
  split
  · exact fun hxor => hxor.or.elim (hasks _) (hspells _)
  · exact fun hxor => hxor.or.elim (hasks _) (hspells _)

end Request

end MyMuduo
