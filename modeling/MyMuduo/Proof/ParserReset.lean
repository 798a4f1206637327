import MyMuduo.Lib.Run
import MyMuduo.Proof.HttpBody

/-!
# What a reset forgets

`reset` swaps the request with a fresh one, and `swap` leaves the form fields out.

* `parseContent_withPost`: the form fields are neither read nor written by `parseContent`.
* `parsePost_none_iff`: decoding a body leaves no form field behind exactly if there was none and
  the body holds no `=`.
* `reset_fresh_iff`: **after a reset the parser is a fresh one exactly if no body with a pair was
  ever decoded**, in any order of calls and resets.
-/

namespace MyMuduo

open Lib

/-- The request with other form fields. -/
def HttpRequest.withPost (r : HttpRequest) (post : Bytes → Option Bytes) : HttpRequest :=
  { r with m_post := post }

/-- The parser with other form fields. -/
def HttpRequestParser.withPost (p : HttpRequestParser) (post : Bytes → Option Bytes) :
    HttpRequestParser := ⟨p.m_request.withPost post, p.m_state⟩

/-! ## The form fields and the lines -/

theorem HttpRequest.parseRequestLine_withPost (r : HttpRequest) (post : Bytes → Option Bytes)
    (line : Bytes) : (r.withPost post).parseRequestLine line =
      ((r.parseRequestLine line).1, (r.parseRequestLine line).2.withPost post) := by
  unfold parseRequestLine
  cases splitAtByte 32 line with
  | none => rfl
  | some x =>
    obtain ⟨method, rest⟩ := x
    dsimp only
    by_cases hm : stringToMethod method = .kInvalid
    · rw [if_pos hm, if_pos hm]
      rfl
    · rw [if_neg hm, if_neg hm]
      cases splitAtByte 32 rest with
      | none => rfl
      | some y =>
        obtain ⟨target, version⟩ := y
        dsimp only
        cases splitAtByte 63 target <;> cases versionOf version <;> rfl

namespace HttpRequestParser

variable {p : HttpRequestParser} {Q : Type} [ByteQueue Q]

theorem onLine_withPost (h : p.NoBody) (post : Bytes → Option Bytes) (line : Bytes) :
    (p.withPost post).onLine line = ((p.onLine line).1.withPost post, (p.onLine line).2) := by
  obtain ⟨r, st⟩ := p
  unfold onLine withPost
  cases st with
  | kParseBody => exact absurd rfl h
  | kParseRequestLine =>
    dsimp only
    rw [HttpRequest.parseRequestLine_withPost]
    obtain ⟨ok, r'⟩ := r.parseRequestLine line
    cases ok <;> rfl
  | kParseHeader =>
    dsimp only
    by_cases hl : line = []
    · rw [if_pos hl, if_pos hl]
    · rw [if_neg hl, if_neg hl]
      cases splitAtByte 58 line <;> rfl
  | kParseGotCompleteRequest => rfl
  | kParseErrno => rfl

/-- **The form fields are neither read nor written by `parseContent`.** -/
theorem parseContent_withPost (h : p.NoBody) (post : Bytes → Option Bytes) (buffer : Q) :
    (p.withPost post).parseContent buffer =
      ((p.parseContent buffer).1.withPost post, (p.parseContent buffer).2) := by
  unfold parseContent
  generalize (ByteQueue.readable buffer).length = n
  induction n generalizing p buffer with
  | zero => rfl
  | succ n ih =>
    unfold parseLoop
    cases hcrlf : findCRLF (ByteQueue.readable buffer) with
    | none => rfl
    | some crlf =>
      dsimp only
      have hl := (onLine_noBody h ((ByteQueue.readable buffer).take crlf)).1
      rw [onLine_withPost h]
      rcases hline : p.onLine ((ByteQueue.readable buffer).take crlf) with ⟨p', _ | _⟩
      · rw [hline] at hl
        have hbody' : (p'.withPost post).NoBody := hl
        dsimp only
        rw [if_neg fun h => hbody' h.2, if_neg fun h => hl h.2]
        exact ih hl _
      · rfl

theorem parseContent_post (h : p.NoBody) (buffer : Q) :
    (p.parseContent buffer).1.m_request.m_post = p.m_request.m_post := by
  have hsame := parseContent_withPost h p.m_request.m_post buffer
  exact congrArg (fun x => x.1.m_request.m_post) hsame

/-- What a reset does: all is fresh but the form fields. -/
theorem reset_eq (p : HttpRequestParser) : p.reset = new.withPost p.m_request.m_post := rfl

/-- **Nothing but the form fields** goes from the requests before a reset into the request behind
it. -/
theorem reset_parseContent (p : HttpRequestParser) (buffer : Q) :
    p.reset.parseContent buffer =
      ((new.parseContent buffer).1.withPost p.m_request.m_post, (new.parseContent buffer).2) := by
  rw [reset_eq, parseContent_withPost new_noBody]

end HttpRequestParser

/-! ## The form fields and a body -/

namespace HttpRequest

/-- A key that is there stays there. -/
theorem parsePostLoop_keeps {n : ℕ} {post : Bytes → Option Bytes} {body k : Bytes}
    (h : post k ≠ none) : parsePostLoop n post body k ≠ none := by
  induction n generalizing post body with
  | zero => exact h
  | succ n ih =>
    rw [parsePostLoop]
    cases searchPair body with
    | none => exact h
    | some x =>
      refine ih ?_
      by_cases hk : k = x.1
      · subst hk
        simp
      · rwa [Function.update_of_ne hk]

/-- **Decoding a body leaves no form field exactly if there was none and the body has no `=`.** -/
theorem parsePost_none_iff (r : HttpRequest) (body : Bytes) :
    ((r.parsePost body).2.m_post = fun _ => none) ↔
      (r.m_post = fun _ => none) ∧ 61 ∉ body := by
  change (parsePostLoop body.length r.m_post body = fun _ => none) ↔ _
  constructor
  · intro h
    constructor
    · funext k
      by_contra hk
      exact parsePostLoop_keeps hk (congrFun h k)
    · intro hmem
      obtain ⟨n, hn⟩ : ∃ n, body.length = n + 1 :=
        ⟨body.length - 1, by have := List.length_pos_of_mem hmem; omega⟩
      rcases searchPair_count body with ⟨hnone, -⟩ | ⟨key, value, suffix, hs, -⟩
      · exact hnone hmem
      · rw [hn, parsePostLoop, hs] at h
        exact parsePostLoop_keeps (by simp) (congrFun h key)
  · rintro ⟨hpost, hmem⟩
    rw [hpost]
    rcases searchPair_count body with ⟨-, hs⟩ | ⟨key, value, suffix, -, hcount⟩
    · cases body.length with
      | zero => rfl
      | succ n => rw [parsePostLoop, hs]
    · rw [List.count_eq_zero.2 hmem] at hcount
      omega

end HttpRequest

/-! ## Histories -/

namespace HttpRequestParser

/-- The call decodes no pair of a form. -/
def NoForm (p : HttpRequestParser) : ParserCall → Prop
  | .parseContent _ | .reset => True
  | .parseRequestBody body => p.m_request.m_method = .kPost → 61 ∉ body
  | .parsePost body => 61 ∉ body

instance (p : HttpRequestParser) : (c : ParserCall) → Decidable (p.NoForm c)
  | .parseContent _ | .reset => .isTrue trivial
  | .parseRequestBody body => inferInstanceAs (Decidable (p.m_request.m_method = .kPost → 61 ∉ body))
  | .parsePost body => inferInstanceAs (Decidable (61 ∉ body))

/-- A call: the form fields stay empty exactly if it decodes no pair. -/
theorem call_post_iff {p p' : HttpRequestParser} {c : ParserCall} (hp : p.NoBody)
    (h : p.call c = some p') :
    p'.NoBody ∧ ((p'.m_request.m_post = fun _ => none) ↔
      (p.m_request.m_post = fun _ => none) ∧ p.NoForm c) := by
  cases c with
  | parseContent buffer =>
    cases h
    refine ⟨parseLoop_noBody hp _ buffer, ?_⟩
    rw [parseContent_post hp]
    exact (and_iff_left trivial).symm
  | parseRequestBody body =>
    cases h
    refine ⟨hp, ?_⟩
    unfold HttpRequest.parseRequestBody
    by_cases hm : p.m_request.m_method = .kPost
    · have hC : p.NoForm (.parseRequestBody body) ↔ 61 ∉ body := forall_prop_of_true hm
      rw [if_pos hm, hC, HttpRequest.parsePost_none_iff]
    · rw [if_neg hm]
      exact (and_iff_left fun h => absurd h hm).symm
  | parsePost body =>
    cases h
    exact ⟨hp, HttpRequest.parsePost_none_iff _ _⟩
  | reset =>
    cases h
    exact ⟨by simp [NoBody, reset], (and_iff_left trivial).symm⟩

/-- **A reset gives a fresh parser exactly behind histories without a form.** For every sequence of
calls of `parseContent`, on any buffers, of `parseRequestBody` and `parsePost`, and of resets, the
parser behind one more reset is a fresh one, and parses every buffer as a fresh one does, exactly if no
call of the history decoded a body with a pair. -/
theorem reset_fresh_iff (calls : List ParserCall) (p : HttpRequestParser)
    (h : run call new calls = some p) :
    (p.reset = new ∧ ∀ buffer : Buffer, p.reset.parseContent buffer = new.parseContent buffer) ↔
      Along call NoForm new calls := by
  have hall : Along call (fun _ _ => True) new calls := along_of_forall new fun _ _ => trivial
  have hstep : ∀ q c q', q.NoBody → True → call q c = some q' →
      q'.NoBody ∧ ((q'.m_request.m_post = fun _ => none) ↔
        (q.m_request.m_post = fun _ => none) ∧ q.NoForm c) :=
    fun q c q' hq _ hc => call_post_iff hq hc
  have hpost : (p.m_request.m_post = fun _ => none) ↔ Along call NoForm new calls := by
    rw [run_iff_along hstep calls new_noBody hall h]
    exact and_iff_right rfl
  rw [← hpost]
  constructor
  · rintro ⟨hfresh, -⟩
    exact congrArg (fun q => q.m_request.m_post) hfresh
  · intro hnone
    have hfresh : p.reset = new := by
      rw [reset_eq, hnone]
      rfl
    exact ⟨hfresh, fun buffer => by rw [hfresh]⟩

/-- A body without a pair, and a reset. -/
theorem reset_fresh_iff_plain :
    run call new [.parsePost (ascii "none"), .reset] = some new ∧
      new.reset = new ∧ ∀ b : Buffer, new.reset.parseContent b = new.parseContent b :=
  ⟨rfl, (reset_fresh_iff [.parsePost (ascii "none"), .reset] new rfl).2 (by decide)⟩

/-- A form field survives the reset. -/
theorem reset_keeps_form :
    ¬∀ (calls : List ParserCall) (p : HttpRequestParser), run call new calls = some p →
      p.reset = new ∧ ∀ b : Buffer, p.reset.parseContent b = new.parseContent b := by
  intro h
  obtain ⟨hfresh, -⟩ := h [.parsePost (ascii "a=1")] _ rfl
  have hfield := congrArg (fun q => q.m_request.m_post (ascii "a")) hfresh
  revert hfield
  decide

end HttpRequestParser

end MyMuduo
