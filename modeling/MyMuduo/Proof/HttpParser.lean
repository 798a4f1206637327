import MyMuduo.Spec.HttpGrammar
import MyMuduo.Spec.HttpParser

/-!
# The parser against the grammar

* `parseContent_feed`: a call of `parseContent` is the line automaton `feed` run over the
  complete lines of the buffer, as long as the parser is not in its body state, which it
  never enters.
* `feed_request`: the lines of a well-formed request take a fresh parser to a complete
  request with the fields of that request; `feed_prefix`: no proper prefix of them does.
* `feed_complete`: only the lines of a well-formed request do.
-/

namespace MyMuduo

open Lib

/-! ## Cutting a line -/

theorem splitAtByte_append {c : UInt8} {a : Bytes} (b : Bytes) (h : c ∉ a) :
    splitAtByte c (a ++ c :: b) = some (a, b) := by
  have hp : ∀ x ∈ a, decide (x ≠ c) = true := by
    intro x hx
    simp only [ne_eq, decide_not, Bool.not_eq_eq_eq_not, Bool.not_true, decide_eq_false_iff_not]
    rintro rfl; exact h hx
  unfold splitAtByte
  rw [List.dropWhile_append_of_pos hp, List.takeWhile_append_of_pos hp]
  simp

theorem splitAtByte_some {c : UInt8} {s a b : Bytes} (h : splitAtByte c s = some (a, b)) :
    s = a ++ c :: b ∧ c ∉ a := by
  unfold splitAtByte at h
  split at h
  · cases h
  · rename_i x rest hd
    cases h
    have hx : x = c := by
      have := List.head_dropWhile_not (fun x => decide (x ≠ c)) (l := s) (by rw [hd]; simp)
      simp only [hd, List.head_cons] at this
      simpa using this
    have hs := List.takeWhile_append_dropWhile (p := fun x => decide (x ≠ c)) (l := s)
    rw [hd, hx] at hs
    refine ⟨hs.symm, fun hm => ?_⟩
    simpa using List.mem_takeWhile_imp hm

theorem not_mem_of_splitAtByte {c : UInt8} {s : Bytes} (h : splitAtByte c s = none) : c ∉ s := by
  intro hm
  obtain ⟨a, b, rfl, ha⟩ := List.eq_append_cons_of_mem hm
  rw [splitAtByte_append b ha] at h
  cases h

theorem stringToMethod_name {m : Method} (h : m ≠ .kInvalid) : stringToMethod m.name = m := by
  cases m with
  | kInvalid => exact absurd rfl h
  | _ => decide

theorem name_stringToMethod {s : Bytes} (h : stringToMethod s ≠ .kInvalid) :
    s = (stringToMethod s).name := by
  unfold stringToMethod at h ⊢
  split_ifs at h ⊢ with h1 h2 h3 h4 h5 h6 h7 h8 h9
  · exact h1
  · exact h2
  · exact h3
  · exact h4
  · exact h5
  · exact h6
  · exact h7
  · exact h8
  · exact h9
  · exact absurd rfl h

theorem space_not_mem_name (m : Method) : (32 : UInt8) ∉ m.name := by cases m <;> decide

theorem versionOf_spelling {v : Version} {s : Bytes} (hv : v ≠ .kInvalid)
    (hs : s.map toLower = v.name.map toLower) : versionOf s = some v := by
  have hl : s.length = v.name.length := by simpa using congrArg List.length hs
  unfold versionOf
  rw [hs, hl]
  cases v with
  | kInvalid => exact absurd rfl hv
  | kHttp10 => decide
  | kHttp11 => decide

theorem spelling_of_versionOf {v : Version} {s : Bytes} (h : versionOf s = some v) :
    v ≠ .kInvalid ∧ s.map toLower = v.name.map toLower := by
  unfold versionOf at h
  split_ifs at h with h1 h2 h3 <;> cases h
  · exact ⟨by decide, h2⟩
  · exact ⟨by decide, h3⟩

/-! ## The request line -/

theorem path_eq (l : RequestLine) {a b : Bytes} (h : splitAtByte 63 l.target = some (a, b)) :
    l.path = a ∧ l.query = b := by
  obtain ⟨h1, h2⟩ := splitAtByte_some h
  have hp : ∀ x ∈ a, decide (x ≠ (63 : UInt8)) = true := by
    intro x hx; simp only [decide_eq_true_eq]; rintro rfl; exact h2 hx
  unfold RequestLine.path RequestLine.query
  rw [h1, List.takeWhile_append_of_pos hp, List.dropWhile_append_of_pos hp]
  simp

theorem path_eq_target (l : RequestLine) (h : splitAtByte 63 l.target = none) :
    l.path = l.target ∧ l.query = [] := by
  have hn := not_mem_of_splitAtByte h
  have hp : ∀ x ∈ l.target, decide (x ≠ (63 : UInt8)) = true := by
    intro x hx; simp only [decide_eq_true_eq]; rintro rfl; exact hn hx
  exact ⟨List.takeWhile_eq_self_iff.2 hp, by
    rw [RequestLine.query, List.dropWhile_eq_nil_iff.2 hp]; rfl⟩

/-- The fields a request line gives to a request whose query is still empty. -/
def RequestLine.apply (l : RequestLine) (r : HttpRequest) : HttpRequest :=
  { r with m_method := l.method, m_path := l.path, m_query := l.query, m_version := l.version }

/-- **A valid request line is accepted, with its fields.** -/
theorem parseRequestLine_text (l : RequestLine) {r : HttpRequest} (hr : r.m_query = []) :
    r.parseRequestLine l.text = (true, l.apply r) := by
  have h1 : splitAtByte 32 l.text = some (l.method.name, l.target ++ 32 :: l.spelling) := by
    rw [RequestLine.text, List.append_assoc, List.cons_append]
    exact splitAtByte_append _ (space_not_mem_name _)
  have h2 : splitAtByte 32 (l.target ++ 32 :: l.spelling) = some (l.target, l.spelling) :=
    splitAtByte_append _ l.target_valid
  have h3 := versionOf_spelling l.version_valid l.spelling_valid
  unfold HttpRequest.parseRequestLine
  rw [h1]
  dsimp only
  rw [stringToMethod_name l.method_valid, if_neg l.method_valid, h2]
  dsimp only
  rw [h3]
  cases hq : splitAtByte 63 l.target with
  | none =>
    obtain ⟨hp, hq⟩ := path_eq_target l hq
    simp only [RequestLine.apply, hp, hq, ← hr]
  | some x =>
    obtain ⟨hp, hq⟩ := path_eq l hq
    simp only [RequestLine.apply, hp, hq]

/-- **Only a valid request line is accepted.** -/
theorem exists_requestLine {r r' : HttpRequest} {line : Bytes}
    (h : r.parseRequestLine line = (true, r')) : ∃ l : RequestLine, line = l.text := by
  unfold HttpRequest.parseRequestLine at h
  split at h
  · cases h
  rename_i method rest h1
  dsimp only at h
  split at h
  · cases h
  rename_i hm
  split at h
  · cases h
  rename_i target version h2
  split at h
  · rename_i v hv
    obtain ⟨e1, -⟩ := splitAtByte_some h1
    obtain ⟨e2, ht⟩ := splitAtByte_some h2
    obtain ⟨hv1, hv2⟩ := spelling_of_versionOf hv
    refine ⟨⟨stringToMethod method, target, v, version, hm, ht, hv1, hv2⟩, ?_⟩
    rw [RequestLine.text, e1, e2, ← name_stringToMethod hm, List.append_assoc, List.cons_append]
  · cases h

/-! ## Headers -/

/-- A header entered in a map: an earlier value of its field is replaced. -/
def Header.enter (m : Bytes → Option Bytes) (h : Header) : Bytes → Option Bytes :=
  Function.update m h.field (some h.value)

/-- Entering several: the last one of a field counts. -/
theorem update_fold {α : Type} (key val : α → Bytes) (xs : List α) (m : Bytes → Option Bytes)
    (f : Bytes) :
    xs.foldl (fun m x => Function.update m (key x) (some (val x))) m f =
      ((xs.reverse.find? (key · = f)).map val <|> m f) := by
  induction xs using List.reverseRecOn with
  | nil => rfl
  | append_singleton xs x ih =>
    rw [List.foldl_append, List.reverse_append]
    simp only [List.foldl_cons, List.foldl_nil, List.reverse_cons, List.reverse_nil, List.nil_append,
      List.cons_append, List.find?_cons]
    by_cases hf : key x = f
    · subst hf; simp
    · rw [Function.update_of_ne (Ne.symm hf), ih]; simp [hf]

/-! ## The line automaton -/

namespace HttpRequestParser

/-- The parser after some lines; a branch that returns ends it. -/
def feed (p : HttpRequestParser) : List Bytes → HttpRequestParser
  | [] => p
  | l :: ls =>
    match p.onLine l with
    | (p, true) => p
    | (p, false) => feed p ls

/-- The parser is not in the body state. -/
def NoBody (p : HttpRequestParser) : Prop := p.m_state ≠ .kParseBody

theorem new_noBody : new.NoBody := fun h => by cases h

/-- What a line does outside of the body state: the parser stays outside of it, and a branch
that returns is an error. -/
theorem onLine_noBody {p : HttpRequestParser} (h : p.NoBody) (l : Bytes) :
    (p.onLine l).1.NoBody ∧ ((p.onLine l).2 = true → (p.onLine l).1.m_state = .kParseErrno) := by
  unfold onLine NoBody at *
  cases hst : p.m_state with
  | kParseBody => exact absurd hst h
  | kParseRequestLine =>
    simp only
    split <;> simp
  | kParseHeader =>
    simp only
    split
    · simp
    · split <;> simp
  | kParseGotCompleteRequest => simp
  | kParseErrno => simp

theorem feed_noBody {p : HttpRequestParser} (h : p.NoBody) (ls : List Bytes) : (p.feed ls).NoBody := by
  induction ls generalizing p with
  | nil => exact h
  | cons l ls ih =>
    have hl := (onLine_noBody h l).1
    unfold feed
    split
    · rename_i p' he; rw [he] at hl; exact hl
    · rename_i p' he; rw [he] at hl; exact ih hl

/-- **An error is absorbing.** -/
theorem feed_errno {p : HttpRequestParser} (h : p.m_state = .kParseErrno) (ls : List Bytes) :
    p.feed ls = p := by
  cases ls with
  | nil => rfl
  | cons l ls =>
    obtain ⟨r, st⟩ := p
    cases h
    rfl

/-- Any further line after a complete request is an error. -/
theorem feed_after_complete {p : HttpRequestParser} (h : p.m_state = .kParseGotCompleteRequest)
    {ls : List Bytes} (hls : ls ≠ []) : p.feed ls = ⟨p.m_request, .kParseErrno⟩ := by
  cases ls with
  | nil => exact absurd rfl hls
  | cons l ls =>
    obtain ⟨r, st⟩ := p
    cases h
    rfl

theorem feed_append {p : HttpRequestParser} (h : p.NoBody) (ls ms : List Bytes) :
    p.feed (ls ++ ms) = (p.feed ls).feed ms := by
  induction ls generalizing p with
  | nil => rfl
  | cons l ls ih =>
    obtain ⟨h1, h2⟩ := onLine_noBody h l
    rw [List.cons_append, feed, feed]
    rcases he : p.onLine l with ⟨p', _ | _⟩
    · rw [he] at h1; exact ih h1
    · rw [he] at h2; exact (feed_errno (h2 rfl) ms).symm

end HttpRequestParser

open HttpRequestParser in
/-- **`parseContent` runs the line automaton over the complete lines of the buffer.** -/
theorem parseContent_feed {Q : Type} [ByteQueue Q] {I : Q → Prop} (hI : Drains I)
    {p : HttpRequestParser} (hp : p.NoBody) {q : Q} (hq : I q) :
    (p.parseContent q).1 = p.feed (lines (ByteQueue.readable q)) ∧ I (p.parseContent q).2 := by
  -- the unread bytes bound the rounds of the loop: each takes a line with its CR LF
  have key : ∀ (n : ℕ) (p : HttpRequestParser) (q : Q), p.NoBody → I q →
      (ByteQueue.readable q).length ≤ n →
      (parseLoop n p q).1 = p.feed (lines (ByteQueue.readable q)) ∧ I (parseLoop n p q).2 := by
    intro n
    induction n with
    | zero =>
      intro p q _ hq hn
      have h0 : ByteQueue.readable q = [] := List.length_eq_zero_iff.1 (by omega)
      rw [h0]
      exact ⟨rfl, hq⟩
    | succ n ih =>
      intro p q hp hq hn
      unfold parseLoop
      cases hf : findCRLF (ByteQueue.readable q) with
      | none => rw [lines_of_not_find hf]; exact ⟨rfl, hq⟩
      | some i =>
        obtain ⟨hlen, hlines⟩ := lines_of_find hf
        have hr := hI.retrieve q (i + 2) hq hlen
        have hk := hI.keep q (i + 2) hq
        obtain ⟨hnb, -⟩ := onLine_noBody hp ((ByteQueue.readable q).take i)
        rw [hlines, feed]
        dsimp only
        rcases he : p.onLine ((ByteQueue.readable q).take i) with ⟨p', _ | _⟩
        · rw [he] at hnb
          dsimp only
          rw [if_neg (fun h => hnb h.2), ← hr]
          apply ih p' _ hnb hk
          rw [hr, List.length_drop]; omega
        · exact ⟨rfl, hk⟩
  exact key _ p q hp hq le_rfl

/-! ## Requests and their lines -/

namespace HttpRequestParser

/-- The request as the parser has it after the request line and some headers. -/
def headersOf (l : RequestLine) (hs : List Header) : HttpRequest :=
  { l.apply HttpRequest.new with
    m_headers := hs.foldl Header.enter fun _ => none }

theorem onLine_header (l : RequestLine) (hs : List Header) (h : Header) :
    onLine ⟨headersOf l hs, .kParseHeader⟩ h.text = (⟨headersOf l (hs ++ [h]), .kParseHeader⟩, false) := by
  have hne : h.text ≠ [] := by simp [Header.text]
  have hsp : splitAtByte 58 h.text = some (h.field, h.rest) := splitAtByte_append _ h.field_valid
  simp only [onLine, if_neg hne, hsp, HttpRequest.addHeader, headersOf, List.foldl_append,
    List.foldl_cons, List.foldl_nil, Header.enter, Header.value]

theorem feed_headers (l : RequestLine) (hs hs' : List Header) (ls : List Bytes) :
    feed ⟨headersOf l hs, .kParseHeader⟩ (hs'.map Header.text ++ ls) =
      feed ⟨headersOf l (hs ++ hs'), .kParseHeader⟩ ls := by
  induction hs' generalizing hs with
  | nil => simp
  | cons h hs' ih =>
    rw [List.map_cons, List.cons_append, feed, onLine_header]
    dsimp only
    rw [ih, List.append_assoc, List.singleton_append]

theorem feed_line (l : RequestLine) (ls : List Bytes) :
    new.feed (l.text :: ls) = feed ⟨headersOf l [], .kParseHeader⟩ ls := by
  have h : new.onLine l.text = (⟨headersOf l [], .kParseHeader⟩, false) := by
    unfold onLine new
    dsimp only
    rw [parseRequestLine_text l rfl]
    rfl
  rw [feed, h]

theorem headersOf_denote (r : Request) : headersOf r.line r.headers = r.denote := by
  have : r.headers.foldl Header.enter (fun _ => none) = r.headerValue := by
    funext f
    unfold Header.enter
    rw [update_fold]
    simp [Request.headerValue]
  simp only [headersOf, Request.denote, RequestLine.apply, HttpRequest.new, this]

/-- **A well-formed request is accepted, with its fields.** -/
theorem feed_request (r : Request) :
    new.feed r.lines = ⟨r.denote, .kParseGotCompleteRequest⟩ := by
  rw [Request.lines, List.cons_append, feed_line, feed_headers, List.nil_append, headersOf_denote]
  rfl

/-- A proper prefix of the lines of a request leaves the parser waiting for more. -/
theorem feed_prefix (r : Request) {ls ms : List Bytes} (h : r.lines = ls ++ ms) (hms : ms ≠ []) :
    (new.feed ls).m_state = .kParseRequestLine ∨ (new.feed ls).m_state = .kParseHeader := by
  cases ls with
  | nil => exact Or.inl rfl
  | cons a ls =>
    right
    rw [Request.lines, List.cons_append, List.cons_append, List.cons.injEq] at h
    obtain ⟨rfl, h⟩ := h
    -- `ls` is a prefix of the header lines: the blank line is the last one
    obtain ⟨hs, rfl⟩ : ∃ hs : List Header, ls = hs.map Header.text := by
      have hpre : ls <+: r.headers.map Header.text := by
        obtain ⟨b, ms', rfl⟩ := List.exists_cons_of_ne_nil hms
        rcases List.append_eq_append_iff.1 h with ⟨x, h1, h2⟩ | ⟨x, h1, -⟩
        · cases x with
          | nil => rw [h1, List.append_nil]
          | cons y ys => simp at h2
        · exact ⟨x, h1.symm⟩
      exact ⟨r.headers.take ls.length, by
        rw [List.map_take]; exact List.prefix_iff_eq_take.1 hpre⟩
    have := feed_headers r.line [] hs []
    rw [List.append_nil] at this
    rw [feed_line, this]
    rfl

/-- **Only the lines of a well-formed request complete one.** -/
theorem feed_complete {ls : List Bytes} (hls : ∀ l ∈ ls, IsLine l)
    (h : (new.feed ls).m_state = .kParseGotCompleteRequest) :
    ∃ r : Request, ls = r.lines ∧ (new.feed ls).m_request = r.denote := by
  -- from the header state, the lines left are headers and a blank line
  have key : ∀ (ls : List Bytes) (l : RequestLine) (hs : List Header), (∀ x ∈ ls, IsLine x) →
      (feed ⟨headersOf l hs, .kParseHeader⟩ ls).m_state = .kParseGotCompleteRequest →
      ∃ hs' : List Header, ls = hs'.map Header.text ++ [[]] := by
    intro ls
    induction ls with
    | nil => intro l hs _ h; cases h
    | cons a ls ih =>
      intro l hs hls h
      by_cases ha : a = []
      · subst ha
        cases ls with
        | nil => exact ⟨[], rfl⟩
        | cons b ls => simp [feed, onLine] at h
      · cases hsp : splitAtByte 58 a with
        | none => simp [feed, onLine, ha, hsp] at h
        | some x =>
          obtain ⟨field, rest⟩ := x
          obtain ⟨e, hfield⟩ := splitAtByte_some hsp
          have htext : a = Header.text ⟨field, rest, hfield⟩ := e
          rw [htext, feed, onLine_header] at h
          obtain ⟨hs', e'⟩ := ih l _ (fun x hx => hls x (List.mem_cons_of_mem _ hx)) h
          exact ⟨⟨field, rest, hfield⟩ :: hs', by rw [e', htext]; rfl⟩
  cases ls with
  | nil => cases h
  | cons a ls =>
    rcases hp : HttpRequest.new.parseRequestLine a with ⟨ok, r'⟩
    cases ok with
    | false => simp [feed, onLine, new, hp] at h
    | true =>
      obtain ⟨l, rfl⟩ := exists_requestLine hp
      have h' := h
      rw [feed_line] at h'
      obtain ⟨hs, rfl⟩ := key ls l [] (fun x hx => hls x (List.mem_cons_of_mem _ hx)) h'
      have hhead : ∀ x ∈ hs, IsLine x.text := fun x hx =>
        hls _ (List.mem_cons_of_mem _ (List.mem_append_left _ (List.mem_map_of_mem hx)))
      exact ⟨⟨l, hs, hls _ List.mem_cons_self, hhead⟩, rfl, by
        rw [show l.text :: (hs.map Header.text ++ [[]]) =
          Request.lines ⟨l, hs, hls _ List.mem_cons_self, hhead⟩ from rfl, feed_request]⟩

end HttpRequestParser

end MyMuduo
