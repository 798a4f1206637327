import MyMuduo.Proof.Buffer
import MyMuduo.Proof.HttpParser
import MyMuduo.Spec.HttpResponse

/-!
# Responses on the wire

A buffer whose read index is at most the reserve never slides, so `appendToBuffer` adds its strings
behind one another however the block grows meanwhile (`appendToBuffer_low`). What it adds are lines
that are not blank, a blank line and the body (`bytes_eq`), which a client cuts at the first CR LF
CR LF, whatever the body holds.

* `decode_bytes`: the response is read back from its bytes.
* `takeResponse_bytes`: a response that keeps the connection open is read back from whatever starts
  with its bytes, and what follows is left.
* `response_exact`: **the serialisation is exact, and can be decoded.**
-/

namespace MyMuduo

open Lib

/-! ## Growing without a slide -/

namespace Buffer

variable {b : Buffer}

/-- The indices are in order and inside the block, and the data starts within the reserve. -/
structure Low (b : Buffer) : Prop where
  read : b.m_read_index ≤ kPrePendIndex
  order : b.m_read_index ≤ b.m_write_index
  bound : b.m_write_index ≤ b.m_buffer.length

/-- Room is made by growing the block, if at all. -/
theorem Low.ensureWriteableBytes (h : b.Low) (len : ℕ) :
    (b.ensureWriteableBytes len).Low ∧ (b.ensureWriteableBytes len).readable = b.readable ∧
      (b.ensureWriteableBytes len).m_write_index + len ≤ (b.ensureWriteableBytes len).m_buffer.length := by
  have hread := h.read
  have hbound := h.bound
  unfold Buffer.ensureWriteableBytes
  split
  · rename_i hr
    unfold writeableBytes at hr
    exact ⟨h, rfl, by omega⟩
  rename_i hr
  split
  · -- the reserve itself leaves no room to slide into
    rename_i hs
    simp only [writeableBytes, prependableBytes] at hr hs; omega
  · simp only [writeableBytes] at hr
    have hle : b.m_buffer.length ≤ b.m_write_index + len := by omega
    have hl := length_resize (l := b.m_buffer) hle
    have hs := slice_resize (l := b.m_buffer) hle h.order hbound
    exact ⟨⟨hread, h.order, by simp only [hl]; omega⟩, hs, by simp only [hl]; omega⟩

theorem Low.append (h : b.Low) (data : Bytes) :
    (b.append data).Low ∧ (b.append data).readable = b.readable ++ data := by
  obtain ⟨h1, h2, h3⟩ := h.ensureWriteableBytes data.length
  have hl := length_overwrite (d := data) h3
  have horder := h1.order
  refine ⟨⟨h1.read, ?_, ?_⟩, ?_⟩
  · simp only [Buffer.append]; omega
  · simp only [Buffer.append, hl]; exact h3
  · rw [← h2]
    exact slice_overwrite h1.order h3

/-- Strings appended one after the other. -/
theorem Low.appends (h : b.Low) (ds : List Bytes) :
    (ds.foldl ByteQueue.append b).readable = b.readable ++ ds.flatten := by
  induction ds generalizing b with
  | nil => simp
  | cons d ds ih =>
    obtain ⟨h1, h2⟩ := h.append d
    have hd : ByteQueue.append b d = b.append d := rfl
    rw [List.foldl_cons, hd, ih h1, h2, List.flatten_cons, List.append_assoc]

end Buffer

/-- **The response is added behind the unread bytes**, whatever the block has to grow. -/
theorem appendToBuffer_low {b : Buffer} (h : b.Low) (r : HttpResponse) :
    (r.appendToBuffer b).readable = b.readable ++ r.bytes := h.appends r.pieces

/-! ## Numbers -/

theorem digit_lt {n : ℕ} {c : Char} (hc : c ∈ Nat.toDigits 10 n) : 48 ≤ c.toNat ∧ c.toNat ≤ 57 := by
  have hd := Nat.isDigit_of_mem_toDigits (by omega) (by omega) hc
  simp only [Char.isDigit, Bool.and_eq_true, decide_eq_true_eq] at hd
  exact ⟨hd.1, hd.2⟩

/-- A number is read back from its digits. -/
theorem readNat_to_string (n : ℕ) : readNat (to_string n) = n := by
  have hmap : (to_string n).map (fun b => Char.ofNat b.toNat) = Nat.toDigits 10 n := by
    rw [to_string, List.map_map]
    refine (List.map_congr_left fun c hc => ?_).trans (List.map_id _)
    have hlt := digit_lt hc
    have hmod : c.toNat % 2 ^ 8 = c.toNat := by omega
    simp only [Function.comp_apply, UInt8.toNat_ofNat', hmod, Char.ofNat_toNat, id]
  rw [readNat, hmap]
  exact Nat.ofDigitChars_ten_toDigits

theorem to_string_inj {m n : ℕ} (h : to_string m = to_string n) : m = n := by
  rw [← readNat_to_string m, h, readNat_to_string]

/-- Digits are neither CR, LF nor a space. -/
theorem to_string_digits {n : ℕ} {b : UInt8} (hb : b ∈ to_string n) : 48 ≤ b.toNat ∧ b.toNat ≤ 57 := by
  obtain ⟨c, hc, rfl⟩ := List.mem_map.1 hb
  have hlt := digit_lt hc
  rw [UInt8.toNat_ofNat']; omega

theorem to_string_clean (n : ℕ) : Clean (to_string n) := by
  constructor
  · intro hb
    have := to_string_digits hb
    simp at this
  · intro hb
    have := to_string_digits hb
    simp at this

/-! ## The head of a response -/

namespace HttpResponse

/-- The texts in the head of the response have no CR and no LF. -/
structure Plain (r : HttpResponse) : Prop where
  message : Clean r.m_status_message
  type : Clean r.m_type

variable {r : HttpResponse}

/-- **The bytes of a response** are its lines, a blank line and the body. -/
theorem bytes_eq (r : HttpResponse) : r.bytes = encodeLines r.headLines ++ CRLF ++ r.m_body := by
  unfold bytes pieces headLines encodeLines
  cases r.m_close_connection with
  | true => simp
  | false => simp

theorem clean_append {x y : Bytes} (hx : Clean x) (hy : Clean y) : Clean (x ++ y) := by
  constructor
  · intro hm
    exact (List.mem_append.1 hm).elim hx.1 hy.1
  · intro hm
    exact (List.mem_append.1 hm).elim hx.2 hy.2

theorem headLines_clean (h : r.Plain) : ∀ l ∈ r.headLines, Clean l ∧ l ≠ [] := by
  have hcode := to_string_clean r.m_status_code.toNat
  have hlen := to_string_clean r.m_body.length
  have hstatus : Clean (ascii "HTTP/1.1 " ++ to_string r.m_status_code.toNat ++ ascii " " ++ r.m_status_message) :=
    clean_append (clean_append (clean_append (by decide) hcode) (by decide)) h.message
  have htype : Clean (ascii "Content-type: " ++ r.m_type) := clean_append (by decide) h.type
  have hlength : Clean (ascii "Content-length: " ++ to_string r.m_body.length) :=
    clean_append (by decide) hlen
  -- every line starts with a text of its own
  have hne : ∀ {x : Bytes} (y : Bytes), x ≠ [] → x ++ y ≠ [] := by
    intro x y hx he
    exact hx (List.append_eq_nil_iff.1 he).1
  intro l hl
  simp only [headLines, List.mem_append, List.mem_cons, List.not_mem_nil, or_false] at hl
  rcases hl with (hl | hl) | hl | hl
  · rw [hl]
    exact ⟨hstatus, hne _ (hne _ (hne _ (by decide)))⟩
  · split at hl
    · rw [List.mem_singleton.1 hl]
      exact ⟨by decide, by decide⟩
    · simp only [List.mem_cons, List.not_mem_nil, or_false] at hl
      rcases hl with hl | hl
      · rw [hl]
        exact ⟨hlength, hne _ (by decide)⟩
      · rw [hl]
        exact ⟨by decide, by decide⟩
  · rw [hl]
    exact ⟨htype, hne _ (by decide)⟩
  · rw [hl]
    exact ⟨by decide, by decide⟩

theorem after_append (name x : Bytes) : after name (name ++ x) = some x := by simp [after]

/-- The status line is read back: the code has no space in it. -/
theorem readStatus_line (code : HttpStatusCode) (message : Bytes) :
    readStatus (ascii "HTTP/1.1 " ++ to_string code.toNat ++ ascii " " ++ message) = some (code, message) := by
  have hspace : 32 ∉ to_string code.toNat := by
    intro hm
    have := to_string_digits hm
    simp at this
  have hsplit : splitAtByte 32 (to_string code.toNat ++ 32 :: message) = some (to_string code.toNat, message) :=
    splitAtByte_append _ hspace
  have hfind : HttpStatusCode.all.find? (·.toNat = code.toNat) = some code := by
    cases code <;> rfl
  have happ : ascii "HTTP/1.1 " ++ to_string code.toNat ++ ascii " " ++ message =
      ascii "HTTP/1.1 " ++ (to_string code.toNat ++ 32 :: message) := by
    simp [ascii]
  rw [happ]
  simp only [readStatus, after_append, hsplit, readNat_to_string, hfind, Option.bind_eq_bind, Option.bind_some]
  rfl

theorem readHeader_type (r : HttpResponse) :
    readHeader (ascii "Content-type") r.headLines.tail = some r.m_type := by
  unfold headLines
  cases r.m_close_connection with
  | true => rfl
  | false => rfl

theorem readHeader_connection (r : HttpResponse) :
    readHeader (ascii "Connection") r.headLines.tail =
      some (if r.m_close_connection then ascii "close" else ascii "Keep-Alive") := by
  unfold headLines
  cases r.m_close_connection with
  | true => rfl
  | false => rfl

/-- A response that keeps the connection open says how long it is. -/
theorem readHeader_length (r : HttpResponse) :
    readHeader (ascii "Content-length") r.headLines.tail =
      if r.m_close_connection then none else some (to_string r.m_body.length) := by
  unfold headLines
  cases r.m_close_connection with
  | true => rfl
  | false => rfl

/-- The fields in the head of the response. -/
def head (r : HttpResponse) : ResponseHead :=
  ⟨r.m_status_code, r.m_status_message, r.m_type, r.m_close_connection,
    if r.m_close_connection then none else some r.m_body.length⟩

theorem readHead_lines (r : HttpResponse) : readHead r.headLines = some r.head := by
  have hstatus : r.headLines.head? =
      some (ascii "HTTP/1.1 " ++ to_string r.m_status_code.toNat ++ ascii " " ++ r.m_status_message) := rfl
  have hclose : (decide ((if r.m_close_connection then ascii "close" else ascii "Keep-Alive") = ascii "close")) =
      r.m_close_connection := by
    cases r.m_close_connection with
    | true => decide
    | false => decide
  have hlen : (if r.m_close_connection then none else some (to_string r.m_body.length)).map readNat =
      if r.m_close_connection then none else some r.m_body.length := by
    split
    · rfl
    · rw [Option.map_some, readNat_to_string]
  simp only [readHead, hstatus, readStatus_line, readHeader_type, readHeader_connection, readHeader_length,
    Option.bind_eq_bind, Option.bind_some, hclose, hlen]
  rfl

/-- **The head is cut off at the first blank line**, whatever the body and what follows it. -/
theorem readResponse_bytes (h : r.Plain) (s : Bytes) :
    readResponse (r.bytes ++ s) = some (r.head, r.m_body ++ s) := by
  have hclean := headLines_clean h
  have hne : r.headLines ≠ [] := by simp [headLines]
  obtain ⟨front, hcut, hfront⟩ := cutBlank_encode hclean hne (r.m_body ++ s)
  have hbytes : r.bytes ++ s = encodeLines r.headLines ++ CRLF ++ (r.m_body ++ s) := by
    rw [bytes_eq, List.append_assoc]
  have hlines : lines (front ++ CRLF) = r.headLines := by
    have := lines_encode (fun l hl => isLine_of_clean (hclean l hl).1) []
    rw [hfront]
    simpa using this
  rw [hbytes]
  simp only [readResponse, hcut, hlines, readHead_lines, Option.bind_eq_bind, Option.bind_some]
  rfl

/-! ## Whole responses -/

theorem decode_bytes (h : r.Plain) : decode r.bytes = some r := by
  have hread := readResponse_bytes h []
  rw [List.append_nil, List.append_nil] at hread
  simp only [decode, hread, Option.bind_eq_bind, Option.bind_some]
  rfl

/-- **A response that keeps the connection open is told from what follows it.** -/
theorem takeResponse_bytes (h : r.Plain) (hkeep : r.m_close_connection = false) (s : Bytes) :
    takeResponse (r.bytes ++ s) = some (r, s) := by
  have hlen : r.head.length = some r.m_body.length := by simp [head, hkeep]
  simp only [takeResponse, readResponse_bytes h, hlen, Option.bind_eq_bind, Option.bind_some, List.take_left',
    List.drop_left']
  rfl

theorem bytes_ne_nil (r : HttpResponse) : r.bytes ≠ [] := by
  rw [bytes_eq]
  simp [CRLF]

theorem splitResponses_bytes {rs : List HttpResponse}
    (hrs : ∀ r ∈ rs, r.Plain ∧ r.m_close_connection = false) {n : ℕ} (hn : rs.length ≤ n) :
    splitResponses n (rs.flatMap bytes) = some rs := by
  induction rs generalizing n with
  | nil => cases n <;> rfl
  | cons r rs ih =>
    obtain ⟨m, rfl⟩ : ∃ m, n = m + 1 := ⟨n - 1, by rw [List.length_cons] at hn; omega⟩
    obtain ⟨hplain, hkeep⟩ := hrs r List.mem_cons_self
    have hrest := ih (fun x hx => hrs x (List.mem_cons_of_mem _ hx))
      (n := m) (by rw [List.length_cons] at hn; omega)
    obtain ⟨b, t, hbt⟩ := List.exists_cons_of_ne_nil
      (fun he => bytes_ne_nil r (List.append_eq_nil_iff.1 he).1 : r.bytes ++ rs.flatMap bytes ≠ [])
    have htake := takeResponse_bytes hplain hkeep (rs.flatMap bytes)
    rw [List.flatMap_cons, hbt, splitResponses, ← hbt]
    · simp only [htake, hrest, Option.bind_eq_bind, Option.bind_some]
      rfl
    · simp

end HttpResponse

open HttpResponse in
/-- **The serialisation of responses is exact and can be decoded.** For every response without CR and LF
in its texts, any body, and a buffer whose data starts within the reserve: `appendToBuffer` adds the
status line, the header lines, a blank line and the body behind the unread bytes; cut at the first
CR LF CR LF they give the response back; a response that keeps the connection open says how long its body is;
and such responses, one after the other, can be split in one way only. -/
theorem response_exact (r : HttpResponse) (hmessage : Clean r.m_status_message) (htype : Clean r.m_type)
    (b : Buffer) (horder : b.m_read_index ≤ b.m_write_index) (hbound : b.m_write_index ≤ b.m_buffer.length)
    (hread : b.m_read_index ≤ kPrePendIndex) :
    (r.appendToBuffer b).readable = b.readable ++ (encodeLines r.headLines ++ CRLF ++ r.m_body) ∧
      (∃ front, cutBlank r.bytes = some (front, r.m_body) ∧ lines (front ++ CRLF) = r.headLines) ∧
      decode r.bytes = some r ∧
      (r.m_close_connection = false →
        (readHeader (ascii "Content-length") r.headLines.tail).map readNat = some r.m_body.length) ∧
      ∀ rs : List HttpResponse,
        (∀ x ∈ rs, Clean x.m_status_message ∧ Clean x.m_type ∧ x.m_close_connection = false) →
          splitResponses rs.length (rs.flatMap bytes) = some rs ∧
          ∀ rs' : List HttpResponse,
            (∀ x ∈ rs', Clean x.m_status_message ∧ Clean x.m_type ∧ x.m_close_connection = false) →
              rs'.flatMap bytes = rs.flatMap bytes → rs' = rs := by
  have hplain : r.Plain := ⟨hmessage, htype⟩
  refine ⟨?_, ?_, decode_bytes hplain, fun hkeep => ?_, fun rs hrs => ⟨?_, fun rs' hrs' heq => ?_⟩⟩
  · rw [← bytes_eq]
    exact appendToBuffer_low ⟨hread, horder, hbound⟩ r
  · have hclean := headLines_clean hplain
    obtain ⟨front, hcut, hfront⟩ := cutBlank_encode hclean (by simp [headLines]) r.m_body
    refine ⟨front, by rw [bytes_eq]; exact hcut, ?_⟩
    have := lines_encode (fun l hl => isLine_of_clean (hclean l hl).1) []
    rw [hfront]
    simpa using this
  · rw [readHeader_length, hkeep]
    simp [readNat_to_string]
  · exact splitResponses_bytes (fun x hx => ⟨⟨(hrs x hx).1, (hrs x hx).2.1⟩, (hrs x hx).2.2⟩) le_rfl
  · have h1 := splitResponses_bytes (n := max rs.length rs'.length)
      (fun x hx => ⟨⟨(hrs x hx).1, (hrs x hx).2.1⟩, (hrs x hx).2.2⟩) (le_max_left _ _)
    have h2 := splitResponses_bytes (n := max rs.length rs'.length)
      (fun x hx => ⟨⟨(hrs' x hx).1, (hrs' x hx).2.1⟩, (hrs' x hx).2.2⟩) (le_max_right _ _)
    rw [heq, h1] at h2
    exact (Option.some.inj h2).symm

/-- A response to a client that stays, with a body that looks like the end of a head. -/
def blankBody : HttpResponse :=
  ⟨.k404NotFound, ascii "Not Found", [13, 10, 13, 10, 120], ascii "text/plain", false⟩

theorem response_exact_blank :
    decode blankBody.bytes = some blankBody ∧
      (blankBody.appendToBuffer (Buffer.new 16)).readable =
        encodeLines blankBody.headLines ++ CRLF ++ [13, 10, 13, 10, 120] ∧
      splitResponses 2 (blankBody.bytes ++ blankBody.bytes) = some [blankBody, blankBody] := by
  have h := response_exact blankBody (by decide) (by decide) (Buffer.new 16) (by decide) (by decide) (by decide)
  have hkeep : ∀ x ∈ [blankBody, blankBody],
      Clean x.m_status_message ∧ Clean x.m_type ∧ x.m_close_connection = false := by decide
  have hsplit := (h.2.2.2.2 [blankBody, blankBody] hkeep).1
  exact ⟨h.2.2.1, h.1, by simpa using hsplit⟩

end MyMuduo
