import MyMuduo.Proof.HttpForm
import MyMuduo.Proof.HttpService

/-!
# What follows the blank line

The blank line after the headers takes the parser to `kParseGotCompleteRequest`, for every method, and
`parseContent` goes on with the next line: there is no return in that branch, as there is in those of
the body. The next complete line, if there is one, is an error.

* `parseContent_rest`: what is left in the buffer when no line is an error.
* `parse_stops_iff`: **the parser stops at the end of a request, with what follows it left in the
  buffer, if and only if no complete line follows.**
* `onLine_form`: the handler of the body decodes a form. `form_never_decoded`: **but it is never
  reached, so no body of a POST is decoded.**
-/

namespace MyMuduo

open Lib

/-- The first CR LF behind a line. -/
theorem findCRLF_line {l : Bytes} (hl : IsLine l) (s : Bytes) : findCRLF (l ++ CRLF ++ s) = some l.length := by
  have hlines := lines_line s hl
  cases hf : findCRLF (l ++ CRLF ++ s) with
  | none =>
    rw [lines_of_not_find hf] at hlines
    simp at hlines
  | some i =>
    obtain ⟨hle, hcut⟩ := lines_of_find hf
    rw [hlines, List.cons.injEq] at hcut
    have hlen : l.length = min i (l ++ CRLF ++ s).length := by
      conv_lhs => rw [hcut.1]
      rw [List.length_take]
    have hi : l.length = i := by omega
    rw [hi]

namespace HttpRequestParser

variable {Q : Type} [ByteQueue Q] {I : Q → Prop} {p : HttpRequestParser} {q : Q}

/-- **What `parseContent` leaves in the buffer** when none of its lines is an error: the bytes
behind the last CR LF. -/
theorem parseContent_rest (hI : Drains I) (hp : p.NoBody) (hq : I q) {ls : List Bytes} {t : Bytes}
    (hread : ByteQueue.readable q = encodeLines ls ++ t) (hls : ∀ l ∈ ls, IsLine l) (ht : findCRLF t = none)
    (hok : (p.feed ls).m_state ≠ .kParseErrno) : ByteQueue.readable (p.parseContent q).2 = t := by
  have key : ∀ (n : ℕ) (ls : List Bytes) (p : HttpRequestParser) (q : Q), p.NoBody → I q →
      ByteQueue.readable q = encodeLines ls ++ t → (∀ l ∈ ls, IsLine l) → ls.length ≤ n →
      (p.feed ls).m_state ≠ .kParseErrno → ByteQueue.readable (parseLoop n p q).2 = t := by
    intro n
    induction n with
    | zero =>
      intro ls p q _ _ hread _ hn _
      have h0 : ls = [] := List.length_eq_zero_iff.1 (by omega)
      rw [h0] at hread
      exact hread
    | succ n ih =>
      intro ls p q hp hq hread hls hn hok
      unfold parseLoop
      cases ls with
      | nil =>
        have hnone : findCRLF (ByteQueue.readable q) = none := by
          rw [hread]; exact ht
        rw [hnone]
        exact hread
      | cons l ls =>
        have hl := hls l List.mem_cons_self
        have happ : ByteQueue.readable q = l ++ CRLF ++ (encodeLines ls ++ t) := by
          rw [hread]; simp [encodeLines]
        have hf : findCRLF (ByteQueue.readable q) = some l.length := by
          rw [happ]; exact findCRLF_line hl _
        have htake : (ByteQueue.readable q).take l.length = l := by
          rw [happ, List.append_assoc, List.take_left']
          rfl
        have hlen := (lines_of_find hf).1
        have hr := hI.retrieve q (l.length + 2) hq hlen
        have hdrop : (ByteQueue.readable q).drop (l.length + 2) = encodeLines ls ++ t := by
          rw [happ]
          apply List.drop_left'
          simp [CRLF]
        obtain ⟨hnb, herr⟩ := onLine_noBody hp l
        rw [hf]
        dsimp only
        rw [htake]
        rw [feed] at hok
        rcases he : p.onLine l with ⟨p', _ | _⟩
        · rw [he] at hnb hok
          dsimp only
          rw [if_neg fun h => hnb h.2]
          refine ih ls p' _ hnb (hI.keep q _ hq) (by rw [hr, hdrop]) (fun x hx => ?_) ?_ hok
          · exact hls x (List.mem_cons_of_mem _ hx)
          · rw [List.length_cons] at hn; omega
        · -- a branch that returns is an error
          rw [he] at herr hok
          exact absurd (herr rfl) hok
  -- a line takes two bytes at least, so the unread bytes bound the lines
  have hcount : ∀ ls : List Bytes, ls.length ≤ (encodeLines ls).length := by
    intro ls
    induction ls with
    | nil => simp
    | cons l ls ih =>
      simp only [encodeLines, List.flatMap_cons, List.length_append, List.length_cons, CRLF] at ih ⊢
      omega
  refine key _ ls p q hp hq hread hls ?_ hok
  rw [hread, List.length_append]
  have := hcount ls
  omega

/-- **The parser stops at the end of a request**, of any method: over the request and any bytes behind
it, it ends with the fields of the request and leaves those bytes in the buffer, if and only if they
hold no complete line. -/
theorem parse_stops_iff (r : Request) (rest : Bytes) {b : Buffer} (hb : b.Ok)
    (hread : b.readable = r.encode ++ rest) :
    ((new.parseContent b).1 = ⟨r.denote, .kParseGotCompleteRequest⟩ ∧
        (new.parseContent b).2.readable = rest) ↔ findCRLF rest = none := by
  have hlines := r.isLine
  have hread' : ByteQueue.readable b = encodeLines r.lines ++ rest := hread
  have hfeed := (parseContent_feed Buffer.drains new_noBody hb).1
  rw [hread', lines_encode hlines, feed_append new_noBody, feed_request] at hfeed
  constructor
  · rintro ⟨hstate, -⟩
    by_contra hne
    -- a complete line is left: it is an error
    have hls : lines rest ≠ [] := by
      cases hf : findCRLF rest with
      | none => exact absurd hf hne
      | some i =>
        rw [(lines_of_find hf).2]; simp
    rw [hfeed, feed_after_complete rfl hls] at hstate
    simp at hstate
  · intro hnone
    rw [lines_of_not_find hnone] at hfeed
    refine ⟨hfeed, parseContent_rest Buffer.drains new_noBody hb hread' hlines hnone ?_⟩
    rw [feed_request]; simp

/-- A buffer of the given size that some bytes were appended to. -/
def holding (size : ℕ) (s : Bytes) : Buffer := (Buffer.new size).append s

theorem holding_spec {size : ℕ} (hsize : kPrePendIndex ≤ size) (s : Bytes) :
    (holding size s).Ok ∧ (holding size s).readable = s := by
  have hnew := Buffer.new_ok hsize
  have hslide : ¬(Buffer.new size).Slides s.length := by
    rintro ⟨h1, h2⟩
    have hread : (Buffer.new size).prependableBytes = 0 := rfl
    omega
  have happ := Buffer.append_readable hnew hslide
  rw [Buffer.readable_new, List.nil_append] at happ
  exact ⟨Buffer.append_ok hnew s, happ⟩

/-- The start of the next request is left for the next call. -/
theorem parse_stops_iff_partial :
    (new.parseContent (holding 16 (getKeepAlive.encode ++ ascii "GET /b"))).1.m_state =
        .kParseGotCompleteRequest ∧
      (new.parseContent (holding 16 (getKeepAlive.encode ++ ascii "GET /b"))).2.readable = ascii "GET /b" := by
  obtain ⟨hok, hread⟩ := holding_spec (show kPrePendIndex ≤ 16 by decide) (getKeepAlive.encode ++ ascii "GET /b")
  have h := (parse_stops_iff getKeepAlive (ascii "GET /b") hok hread).2 (by decide)
  exact ⟨by rw [h.1], h.2⟩

/-- Two requests in one buffer: the first line of the second one is an error. -/
theorem parse_stops_pipelined :
    (new.parseContent (holding 16 (getKeepAlive.encode ++ getKeepAlive.encode))).1.m_state =
        .kParseErrno ∧
      (new.parseContent (holding 16 (getKeepAlive.encode ++ getKeepAlive.encode))).2.readable ≠
        getKeepAlive.encode := by
  decide +kernel

/-! ## Forms -/

/-- The text of a form with a pair in it has an `=`. -/
theorem form_ne_nil {xs : List FormPair} (hxs : xs ≠ []) : FormPair.form xs ≠ [] := by
  have hlen := HttpRequest.length_le_postForm (xs.map FormPair.toPostPair)
  rw [List.length_map] at hlen
  intro hnil
  change PostPair.form _ = [] at hnil
  rw [hnil] at hlen
  exact hxs (List.length_eq_zero_iff.1 (Nat.le_zero.1 hlen))

/-- A pair without the bytes that end a line. -/
theorem text_clean (x : FormPair) : Clean x.text := by
  have hmem : ∀ b ∈ CRLF, b ∉ x.text := by
    intro b hb h
    rcases List.mem_append.1 h with hk | hv
    · exact x.key_line b hk hb
    · rcases List.mem_cons.1 hv with rfl | hv
      · exact absurd hb (by decide)
      · exact x.value_line b hv hb
  exact ⟨hmem 13 (by decide), hmem 10 (by decide)⟩

/-- A form is one line. -/
theorem form_clean (xs : List FormPair) : Clean (FormPair.form xs) := by
  induction xs with
  | nil => exact ⟨List.not_mem_nil, List.not_mem_nil⟩
  | cons x xs ih =>
    cases xs with
    | nil => exact text_clean x
    | cons y ys =>
      obtain ⟨h13, h10⟩ := text_clean x
      have hform : FormPair.form (x :: y :: ys) = x.text ++ 38 :: FormPair.form (y :: ys) := rfl
      rw [hform]
      simp only [Clean, List.mem_append, List.mem_cons, not_or]
      exact ⟨⟨h13, by decide, ih.1⟩, h10, by decide, ih.2⟩

/-- **The handler of the body decodes a form**: the last value of a key counts. -/
theorem onLine_form {r : HttpRequest} (hpost : r.m_method = .kPost) (hnone : r.m_post = fun _ => none)
    {xs : List FormPair} (hxs : xs ≠ []) :
    onLine ⟨r, .kParseBody⟩ (FormPair.form xs) =
      (⟨{ r with m_post := FormPair.lastValue xs }, .kParseGotCompleteRequest⟩, true) := by
  have hloop : HttpRequest.parsePostLoop (FormPair.form xs).length r.m_post (FormPair.form xs) =
      FormPair.lastValue xs := by
    rw [hnone]
    exact HttpRequest.parsePostLoop_lastValue (xs.map FormPair.toPostPair)
  simp only [onLine, if_neg (form_ne_nil hxs), HttpRequest.parseRequestBody, hpost, if_true,
    HttpRequest.parsePost, hloop]

/-- What decoding the form of a POST means: the parser goes through `kParseBody`, ends with a complete
request, and has the last value of every key. -/
def FormDecoded (b : Buffer) (xs : List FormPair) : Prop :=
  (∃ n, (parseLoop n new b).1.m_state = .kParseBody) ∧
    (new.parseContent b).1.m_state = .kParseGotCompleteRequest ∧
    ∀ k, (new.parseContent b).1.m_request.m_post k = FormPair.lastValue xs k

/-- No round of the loop leaves the parser in the body state. -/
theorem parseLoop_noBody {p : HttpRequestParser} (hp : p.NoBody) (n : ℕ) (q : Q) :
    (parseLoop n p q).1.NoBody := by
  induction n generalizing p q with
  | zero => exact hp
  | succ n ih =>
    unfold parseLoop
    split
    · exact hp
    · rename_i i hf
      have hl := (onLine_noBody hp ((ByteQueue.readable q).take i)).1
      dsimp only
      split
      · rename_i p' he
        rw [he] at hl
        exact hl
      · rename_i p' he
        rw [he] at hl
        split
        · simp [NoBody]
        · exact ih hl _

/-- **No form is ever decoded.** Over the header block of any request, POST or not, and the line of a
form behind it, the parser never comes to `kParseBody`: it ends in `kParseErrno`, with no form field. -/
theorem form_never_decoded (r : Request) (xs : List FormPair) {b : Buffer} (hb : b.Ok)
    (hread : b.readable = r.encode ++ (FormPair.form xs ++ CRLF)) :
    ¬FormDecoded b xs ∧ (∀ n, (parseLoop n new b).1.m_state ≠ .kParseBody) ∧
      (new.parseContent b).1.m_state = .kParseErrno ∧
      ∀ k, (new.parseContent b).1.m_request.m_post k = none := by
  have hnobody := fun n => parseLoop_noBody new_noBody n b
  have hread' : ByteQueue.readable b = encodeLines r.lines ++ (FormPair.form xs ++ CRLF) := hread
  have hfeed := (parseContent_feed Buffer.drains new_noBody hb).1
  rw [hread', lines_encode r.isLine, feed_append new_noBody, feed_request] at hfeed
  -- the line of the form is complete, and comes when the request is
  have hline : lines (FormPair.form xs ++ CRLF) ≠ [] := by
    have hf := findCRLF_line (isLine_of_clean (form_clean xs)) []
    rw [List.append_nil] at hf
    rw [(lines_of_find hf).2]; simp
  rw [feed_after_complete rfl hline] at hfeed
  refine ⟨fun hd => ?_, hnobody, by rw [hfeed], fun k => by rw [hfeed]; rfl⟩
  obtain ⟨n, hn⟩ := hd.1
  exact hnobody n hn

/-- A POST of a form. -/
def postForm : Request where
  line := { getKeepAlive.line with
    method := .kPost, target := ascii "/login", method_valid := by decide, target_valid := by decide }
  headers := [⟨ascii "Content-Length", ascii " 11", by decide⟩]
  line_isLine := by decide
  headers_isLine := by decide

/-- The pairs of that form. -/
def loginPairs : List FormPair :=
  [⟨⟨ascii "user", ascii "a", by decide +kernel, by decide +kernel⟩, by decide +kernel, by decide +kernel⟩,
    ⟨⟨ascii "id", ascii "1", by decide +kernel, by decide +kernel⟩, by decide +kernel, by decide +kernel⟩]

theorem form_never_decoded_post :
    postForm.line.method = .kPost ∧
      ¬FormDecoded (holding 16 (postForm.encode ++ (FormPair.form loginPairs ++ CRLF))) loginPairs := by
  obtain ⟨hok, hread⟩ := holding_spec (show kPrePendIndex ≤ 16 by decide)
    (postForm.encode ++ (FormPair.form loginPairs ++ CRLF))
  have h := form_never_decoded postForm loginPairs hok hread
  exact ⟨rfl, h.1⟩

/-- The line of the form is taken for a line behind the request: an error, and `user` is not entered. -/
theorem form_not_decoded :
    FormPair.form loginPairs = ascii "user=a&id=1" ∧
      (new.parseContent (holding 16 (postForm.encode ++ (FormPair.form loginPairs ++ CRLF)))).1.m_request.m_post
        (ascii "user") ≠ FormPair.lastValue loginPairs (ascii "user") ∧
      ¬FormDecoded (holding 16 (postForm.encode ++ (FormPair.form loginPairs ++ CRLF))) loginPairs := by
  have hpost : (new.parseContent (holding 16 (postForm.encode ++ (FormPair.form loginPairs ++ CRLF)))).1.m_request.m_post
      (ascii "user") ≠ FormPair.lastValue loginPairs (ascii "user") := by decide +kernel
  exact ⟨by decide, hpost, fun hd => hpost (hd.2.2 _)⟩

end HttpRequestParser

end MyMuduo
