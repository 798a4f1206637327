import MyMuduo.Proof.Buffer
import MyMuduo.Proof.HttpParser

/-!
# The parser on every byte string

The line automaton of `parseContent` stops where it likes and goes on from its saved state.
What it has left in the buffer, it would not have consumed in one call either: so how the
bytes are cut into chunks does not matter, and one call decides everything.

* `parseContent_resume`: the rest of the buffer and the saved state go on as the whole
  buffer would have.
* `parse_chunks_eq`: **any chunks of a byte string lead to the same parser as the whole**, and
  an error stays.
* `parse_grammar`: **which byte strings lead to which state**, and what the request holds.
-/

namespace MyMuduo

open Lib

variable {Q : Type} [ByteQueue Q]

namespace HttpRequestParser

/-! ## Chunks -/

/-- Each chunk is appended to what is left, and then parsed. -/
def parseChunks (p : HttpRequestParser) (buffer : Q) : List Bytes → HttpRequestParser × Q
  | [] => (p, buffer)
  | c :: cs =>
    let r := p.parseContent (ByteQueue.append buffer c)
    parseChunks r.1 r.2 cs

/-- **What `parseContent` leaves behind goes on as the whole buffer would have**, whatever
bytes come next. -/
theorem parseContent_resume [LawfulByteQueue Q] {p : HttpRequestParser} (hp : p.NoBody) (q : Q)
    (c : Bytes) :
    (p.parseContent q).1.NoBody ∧
      (p.parseContent q).1.feed (lines (ByteQueue.readable (p.parseContent q).2 ++ c)) =
        p.feed (lines (ByteQueue.readable q ++ c)) := by
  have key : ∀ (n : ℕ) (p : HttpRequestParser) (q : Q), p.NoBody →
      (parseLoop n p q).1.NoBody ∧
        (parseLoop n p q).1.feed (lines (ByteQueue.readable (parseLoop n p q).2 ++ c)) =
          p.feed (lines (ByteQueue.readable q ++ c)) := by
    intro n
    induction n with
    | zero => exact fun p q hp => ⟨hp, rfl⟩
    | succ n ih =>
      intro p q hp
      unfold parseLoop
      cases hf : findCRLF (ByteQueue.readable q) with
      | none => exact ⟨hp, rfl⟩
      | some i =>
        have hlen := (lines_of_find hf).1
        have hr := LawfulByteQueue.readable_retrieve q (i + 2) hlen
        obtain ⟨hnb, herr⟩ := onLine_noBody hp ((ByteQueue.readable q).take i)
        rw [lines_append_of_find c hf, feed]
        dsimp only
        rcases he : p.onLine ((ByteQueue.readable q).take i) with ⟨p', _ | _⟩
        · rw [he] at hnb
          dsimp only
          rw [if_neg (fun h => hnb h.2), ← hr]
          exact ih p' _ hnb
        · -- the loop returned on an error, and an error consumes nothing
          rw [he] at hnb herr
          exact ⟨hnb, feed_errno (herr rfl) _⟩
  exact key _ p q hp

/-- The parser after some chunks is the line automaton after their lines. -/
theorem parseChunks_feed [LawfulByteQueue Q] (cs : List Bytes) {p : HttpRequestParser}
    (hp : p.NoBody) {q : Q} (hq : p.feed (lines (ByteQueue.readable q)) = p) :
    (p.parseChunks q cs).1 = p.feed (lines (ByteQueue.readable q ++ cs.flatten)) := by
  induction cs generalizing p q with
  | nil => rw [List.flatten_nil, List.append_nil, hq, parseChunks]
  | cons c cs ih =>
    set q' := ByteQueue.append q c with hq'
    have hread : ByteQueue.readable q' = ByteQueue.readable q ++ c :=
      LawfulByteQueue.readable_append q c
    obtain ⟨hnb, hnil⟩ := parseContent_resume hp q' []
    obtain ⟨-, hresume⟩ := parseContent_resume hp q' cs.flatten
    -- the call consumed every line it could
    have hsettled : (p.parseContent q').1.feed
        (lines (ByteQueue.readable (p.parseContent q').2)) = (p.parseContent q').1 := by
      rw [List.append_nil, List.append_nil] at hnil
      rw [hnil]
      exact (parseContent_feed drains_of_lawful hp trivial).1.symm
    rw [parseChunks, ih hnb hsettled, hresume, hread, List.flatten_cons, List.append_assoc]

/-- **Incremental parsing equals one-shot parsing.** However a byte string is cut into
chunks, the parser ends as after one call on the whole; and a parser in its error state
stays as it is, with the request untouched. -/
theorem parse_chunks_eq [LawfulByteQueue Q] (q : Q) (hq : ByteQueue.readable q = [])
    (cs : List Bytes) :
    (new.parseChunks q cs).1 = (new.parseContent (ByteQueue.append q cs.flatten)).1 ∧
      ∀ (p : HttpRequestParser) (q' : Q) (ds : List Bytes), p.m_state = .kParseErrno →
        (p.parseChunks q' ds).1 = p := by
  constructor
  · rw [parseChunks_feed cs new_noBody (by rw [hq]; rfl),
      (parseContent_feed drains_of_lawful new_noBody trivial).1, LawfulByteQueue.readable_append, hq]
  · intro p q' ds herr
    have hp : p.NoBody := by simp [NoBody, herr]
    rw [parseChunks_feed ds hp (feed_errno herr _), feed_errno herr]

/-- A request cut inside of its first CR LF. -/
theorem parse_chunks_eq_cut :
    (new.parseChunks ([] : Bytes)
        [ascii "GET /a HTTP/1.1\r", ascii "\nHost: x\r\n", ascii "\r\n"]).1.m_state =
      .kParseGotCompleteRequest ∧
    (new.parseChunks ([] : Bytes)
        [ascii "GET /a HTTP/1.1\r", ascii "\nHost: x\r\n", ascii "\r\n"]).1 =
      (new.parseContent (ascii "GET /a HTTP/1.1\r\nHost: x\r\n\r\n")).1 :=
  ⟨by decide +kernel, (parse_chunks_eq ([] : Bytes) rfl _).1⟩

/-! ## The grammar -/

/-- A header line: it has a colon, and so is not empty. -/
def IsHeaderLine (line : Bytes) : Bool := 58 ∈ line

/-- The text before the first colon. -/
def fieldOf (line : Bytes) : Bytes := line.takeWhile (· ≠ 58)

/-- The text behind the first colon, without the white space around it. -/
def valueOf (line : Bytes) : Bytes := HttpRequest.trim (line.dropWhile (· ≠ 58)).tail

/-- Header lines entered in a request, one after the other. -/
def addHeaders (r : HttpRequest) (hs : List Bytes) : HttpRequest :=
  { r with m_headers :=
      hs.foldl (fun m line => Function.update m (fieldOf line) (some (valueOf line))) r.m_headers }

/-- The state from the first line on that is no header line. -/
def verdict : List Bytes → HttpRequestParseState
  | [] => .kParseHeader
  | [[]] => .kParseGotCompleteRequest
  | _ => .kParseErrno

theorem onLine_isHeaderLine (r : HttpRequest) {line : Bytes} (h : IsHeaderLine line = true) :
    onLine ⟨r, .kParseHeader⟩ line = (⟨addHeaders r [line], .kParseHeader⟩, false) := by
  have hmem : (58 : UInt8) ∈ line := by simpa [IsHeaderLine] using h
  have hne : line ≠ [] := List.ne_nil_of_mem hmem
  cases hs : splitAtByte 58 line with
  | none => exact absurd hmem (not_mem_of_splitAtByte hs)
  | some x =>
    -- the two halves are the field and what the value is cut from
    obtain ⟨hcut, hnot⟩ := splitAtByte_some hs
    have hp : ∀ y ∈ x.1, decide (y ≠ (58 : UInt8)) = true := by
      intro y hy
      simp only [decide_eq_true_eq]
      rintro rfl
      exact hnot hy
    have hfield : fieldOf line = x.1 := by
      rw [fieldOf, hcut, List.takeWhile_append_of_pos hp]
      simp
    have hvalue : valueOf line = HttpRequest.trim x.2 := by
      rw [valueOf, hcut, List.dropWhile_append_of_pos hp]
      simp
    simp only [onLine, if_neg hne, hs, HttpRequest.addHeader, addHeaders, List.foldl_cons,
      List.foldl_nil, hfield, hvalue]

/-- **From the request line on**: the header lines are entered, and the first line that is
none decides. -/
theorem feed_header (ls : List Bytes) (r : HttpRequest) :
    feed ⟨r, .kParseHeader⟩ ls =
      ⟨addHeaders r (ls.takeWhile IsHeaderLine), verdict (ls.dropWhile IsHeaderLine)⟩ := by
  induction ls generalizing r with
  | nil => rfl
  | cons a ls ih =>
    by_cases ha : IsHeaderLine a = true
    · rw [feed, onLine_isHeaderLine r ha, List.takeWhile_cons_of_pos ha,
        List.dropWhile_cons_of_pos ha]
      dsimp only
      rw [ih]
      rfl
    · rw [List.takeWhile_cons_of_neg ha, List.dropWhile_cons_of_neg ha, feed]
      have hnot : (58 : UInt8) ∉ a := by simpa [IsHeaderLine] using ha
      by_cases hnil : a = []
      · subst hnil
        cases ls with
        | nil => rfl
        | cons b ls => rfl
      · have hsplit : splitAtByte 58 a = none := by
          cases hs : splitAtByte 58 a with
          | none => rfl
          | some x => exact absurd (by rw [(splitAtByte_some hs).1]; simp) hnot
        have hv : verdict (a :: ls) = .kParseErrno := by
          obtain ⟨b, a', rfl⟩ := List.exists_cons_of_ne_nil hnil
          rfl
        simp only [onLine, if_neg hnil, hsplit, hv]
        rfl

/-- Header lines all the way. -/
theorem verdict_header {ls : List Bytes} :
    verdict (ls.dropWhile IsHeaderLine) = .kParseHeader ↔ ∀ h ∈ ls, h ≠ [] ∧ 58 ∈ h := by
  have hnil : ∀ xs, verdict xs = .kParseHeader ↔ xs = [] := by
    intro xs
    match xs with
    | [] => simp [verdict]
    | [[]] => simp [verdict]
    | (_ :: _) :: _ => simp [verdict]
    | [] :: _ :: _ => simp [verdict]
  rw [hnil, List.dropWhile_eq_nil_iff]
  refine forall₂_congr fun h _ => ?_
  simp only [IsHeaderLine, decide_eq_true_eq]
  exact ⟨fun hm => ⟨List.ne_nil_of_mem hm, hm⟩, And.right⟩

/-- Header lines and one empty line behind them. -/
theorem verdict_complete {ls : List Bytes} :
    verdict (ls.dropWhile IsHeaderLine) = .kParseGotCompleteRequest ↔
      ∃ hs, ls = hs ++ [[]] ∧ ∀ h ∈ hs, h ≠ [] ∧ 58 ∈ h := by
  have hone : ∀ xs, verdict xs = .kParseGotCompleteRequest ↔ xs = [[]] := by
    intro xs
    match xs with
    | [] => simp [verdict]
    | [[]] => simp [verdict]
    | (_ :: _) :: _ => simp [verdict]
    | [] :: _ :: _ => simp [verdict]
  rw [hone]
  constructor
  · intro hdrop
    have hcut := List.takeWhile_append_dropWhile (p := IsHeaderLine) (l := ls)
    rw [hdrop] at hcut
    refine ⟨_, hcut.symm, fun h hh => ?_⟩
    have hm : (58 : UInt8) ∈ h := by simpa [IsHeaderLine] using List.mem_takeWhile_imp hh
    exact ⟨List.ne_nil_of_mem hm, hm⟩
  · rintro ⟨hs, rfl, hall⟩
    rw [List.dropWhile_append_of_pos fun h hh => by simpa [IsHeaderLine] using (hall h hh).2]
    rfl

/-- A valid request line, and then only header lines. -/
def Headed (L : List Bytes) : Prop :=
  ∃ (l : RequestLine) (hs : List Bytes), L = l.text :: hs ∧ ∀ h ∈ hs, h ≠ [] ∧ 58 ∈ h

/-- A valid request line, header lines, and one final empty line. -/
def Completed (L : List Bytes) : Prop :=
  ∃ (l : RequestLine) (hs : List Bytes), L = l.text :: (hs ++ [[]]) ∧ ∀ h ∈ hs, h ≠ [] ∧ 58 ∈ h

/-- **The verdict of a parser on the lines `L`.** -/
structure Decides (L : List Bytes) (p : HttpRequestParser) : Prop where
  requestLine : p.m_state = .kParseRequestLine ↔ L = []
  header : p.m_state = .kParseHeader ↔ Headed L
  complete : p.m_state = .kParseGotCompleteRequest ↔ Completed L
  errno : p.m_state = .kParseErrno ↔ L ≠ [] ∧ ¬Headed L ∧ ¬Completed L
  /-- the fields named by a valid first line -/
  line : ∀ (l : RequestLine) (rest : List Bytes), L = l.text :: rest →
    p.m_request.m_method = l.method ∧ p.m_request.m_version = l.version ∧
      p.m_request.m_path = l.path ∧ p.m_request.m_query = l.query
  /-- the headers up to the first line that is none, each with its last value -/
  headers : ∀ (l : RequestLine) (rest : List Bytes), L = l.text :: rest → ∀ field,
    p.m_request.m_headers field =
      ((rest.takeWhile IsHeaderLine).reverse.find? (fieldOf · = field)).map valueOf

/-- The lines after a valid request line. -/
theorem feed_decides_line (l : RequestLine) (rest : List Bytes) :
    Decides (l.text :: rest) (new.feed (l.text :: rest)) := by
  have hfeed : new.feed (l.text :: rest) = ⟨addHeaders (headersOf l [])
      (rest.takeWhile IsHeaderLine), verdict (rest.dropWhile IsHeaderLine)⟩ := by
    rw [feed_line, feed_header]
  have hinj : ∀ (l' : RequestLine) (rest' : List Bytes), l.text :: rest = l'.text :: rest' →
      l.apply HttpRequest.new = l'.apply HttpRequest.new ∧ rest = rest' := by
    intro l' rest' he
    obtain ⟨htext, hrest⟩ := List.cons.inj he
    have h1 := parseRequestLine_text l (r := HttpRequest.new) rfl
    rw [htext, parseRequestLine_text l' rfl] at h1
    exact ⟨(Prod.mk.inj h1).2.symm, hrest⟩
  have hheader : Headed (l.text :: rest) ↔ ∀ h ∈ rest, h ≠ [] ∧ 58 ∈ h := by
    refine ⟨fun ⟨l', hs, he, hall⟩ => ?_, fun hall => ⟨l, rest, rfl, hall⟩⟩
    rw [(hinj l' hs he).2]
    exact hall
  have hcomplete : Completed (l.text :: rest) ↔
      ∃ hs, rest = hs ++ [[]] ∧ ∀ h ∈ hs, h ≠ [] ∧ 58 ∈ h := by
    refine ⟨fun ⟨l', hs, he, hall⟩ => ⟨hs, (hinj l' _ he).2, hall⟩, fun ⟨hs, he, hall⟩ => ?_⟩
    exact ⟨l, hs, by rw [he], hall⟩
  rw [hfeed]
  refine ⟨?_, verdict_header.trans hheader.symm, verdict_complete.trans hcomplete.symm, ?_, ?_, ?_⟩
  · refine iff_of_false ?_ (by simp)
    dsimp only
    unfold verdict
    split <;> simp
  · rw [hheader, hcomplete, ← verdict_header, ← verdict_complete]
    dsimp only
    unfold verdict
    split <;> simp
  · intro l' rest' he
    obtain ⟨hl, -⟩ := hinj l' rest' he
    have h1 := congrArg HttpRequest.m_method hl
    have h2 := congrArg HttpRequest.m_version hl
    have h3 := congrArg HttpRequest.m_path hl
    have h4 := congrArg HttpRequest.m_query hl
    exact ⟨h1, h2, h3, h4⟩
  · intro l' rest' he field
    rw [← (hinj l' rest' he).2]
    simp only [addHeaders]
    rw [update_fold]
    simp [headersOf]

/-- The line automaton decides the grammar. -/
theorem feed_decides (L : List Bytes) : Decides L (new.feed L) := by
  cases L with
  | nil =>
    refine ⟨iff_of_true rfl rfl, ?_, ?_, ?_, fun _ _ he => (by cases he), fun _ _ he => (by cases he)⟩
    · refine iff_of_false (by simp [feed, new]) ?_
      rintro ⟨l, hs, he, -⟩
      cases he
    · refine iff_of_false (by simp [feed, new]) ?_
      rintro ⟨l, hs, he, -⟩
      cases he
    · exact iff_of_false (by simp [feed, new]) fun h => h.1 rfl
  | cons a rest =>
    rcases hp : HttpRequest.new.parseRequestLine a with ⟨_ | _, r'⟩
    · -- no request line has this text
      have hnone : ∀ l : RequestLine, a ≠ l.text := by
        rintro l rfl
        rw [parseRequestLine_text l rfl] at hp
        cases hp
      have hfeed : (new.feed (a :: rest)).m_state = .kParseErrno := by
        simp only [feed, onLine, new, hp]
      have hheaded : ¬Headed (a :: rest) := by
        rintro ⟨l, hs, he, -⟩
        exact hnone l (List.cons.inj he).1
      have hcompleted : ¬Completed (a :: rest) := by
        rintro ⟨l, hs, he, -⟩
        exact hnone l (List.cons.inj he).1
      refine ⟨?_, ?_, ?_, ?_, fun l _ he => absurd (List.cons.inj he).1 (hnone l),
        fun l _ he => absurd (List.cons.inj he).1 (hnone l)⟩
      · exact iff_of_false (by rw [hfeed]; simp) (by simp)
      · exact iff_of_false (by rw [hfeed]; simp) hheaded
      · exact iff_of_false (by rw [hfeed]; simp) hcompleted
      · exact iff_of_true hfeed ⟨by simp, hheaded, hcompleted⟩
    · obtain ⟨l, rfl⟩ := exists_requestLine hp
      exact feed_decides_line l rest

/-- **The parser accepts exactly its grammar.** For every content of the buffer, one call on
a fresh parser ends in the state that the lines of the buffer have in the grammar, with the
fields they name. -/
theorem parse_grammar {I : Q → Prop} (hI : Drains I) {q : Q} (hq : I q) :
    Decides (lines (ByteQueue.readable q)) (new.parseContent q).1 := by
  rw [(parseContent_feed hI new_noBody hq).1]
  exact feed_decides _

/-- A colon-less line behind a header: an error, with the header kept. -/
theorem parse_grammar_colonless :
    (new.parseContent (ascii "get / HTTP/1.1\r\n")).1.m_state = .kParseErrno ∧
      Decides [ascii "GET / http/1.1", ascii "Host: x ", ascii "oops"]
        (new.parseContent ((Buffer.new 16).append (ascii "GET / http/1.1\r\nHost: x \r\noops\r\n"))).1 := by
  have hok := Buffer.append_ok (Buffer.new_ok (show kPrePendIndex ≤ 16 by decide))
    (ascii "GET / http/1.1\r\nHost: x \r\noops\r\n")
  have hlines : lines (ByteQueue.readable
      ((Buffer.new 16).append (ascii "GET / http/1.1\r\nHost: x \r\noops\r\n"))) =
        [ascii "GET / http/1.1", ascii "Host: x ", ascii "oops"] := by decide +kernel
  have h := parse_grammar Buffer.drains hok
  rw [hlines] at h
  exact ⟨by decide +kernel, h⟩

end HttpRequestParser

end MyMuduo
