import HorizonCast.Lib.Lines
import HorizonCast.Proofs.BodyLength

/-! A request that is written reads back under the framing that `parse` uses for
responses: the same lines, the same headers and the same body, with no byte left. -/

namespace HorizonCast

open Text

/-! ### The end of the head -/

/-- The first blank line of a text is found a byte later after a byte that does not
start one. -/
theorem findSubsequence_cons {b : UInt8} {s : Bytes} {i : ℕ}
    (hne : (b :: s).take 4 ≠ CRLFCRLF) (h : findSubsequence s CRLFCRLF = some i) :
    findSubsequence (b :: s) CRLFCRLF = some (i + 1) := by
  rw [findSubsequence_eq_some (by decide)] at h ⊢
  obtain ⟨hle, heq, hfirst⟩ := h
  refine ⟨by rw [List.length_cons]; omega, heq, fun j hj => ?_⟩
  cases j with
  | zero => exact hne
  | succ j => exact hfirst j (by omega)

theorem findSubsequence_skip {l s : Bytes} {i : ℕ} (hl : 0x0D ∉ l)
    (h : findSubsequence s CRLFCRLF = some i) :
    findSubsequence (l ++ s) CRLFCRLF = some (l.length + i) := by
  induction l with
  | nil => simpa using h
  | cons b l ih =>
    have hb : b ≠ 0x0D := (List.ne_of_not_mem_cons hl).symm
    have hne : (b :: (l ++ s)).take 4 ≠ CRLFCRLF := fun heq => hb (List.cons.inj heq).1
    rw [List.cons_append, findSubsequence_cons hne (ih (List.not_mem_of_not_mem_cons hl)),
      List.length_cons]
    congr 1
    omega

/-- A line end before another line is not the blank line. -/
theorem findSubsequence_lineEnd {c : UInt8} {s : Bytes} {i : ℕ} (hc : c ≠ 0x0D)
    (h : findSubsequence (c :: s) CRLFCRLF = some i) :
    findSubsequence (0x0D :: 0x0A :: c :: s) CRLFCRLF = some (i + 2) := by
  have hlf : (0x0A :: c :: s).take 4 ≠ CRLFCRLF := fun heq =>
    absurd (List.cons.inj heq).1 (by decide)
  have hcr : (0x0D :: 0x0A :: c :: s).take 4 ≠ CRLFCRLF := fun heq =>
    hc (List.cons.inj (List.cons.inj (List.cons.inj heq).2).2).1
  exact findSubsequence_cons hcr (findSubsequence_cons hlf h)

theorem findSubsequence_blank (body : Bytes) :
    findSubsequence (CRLFCRLF ++ body) CRLFCRLF = some 0 :=
  (findSubsequence_eq_some (by decide)).mpr ⟨by simp, rfl, nofun⟩

theorem cr_notMem {line : Str} (h : '\r' ∉ line) : (0x0D : UInt8) ∉ asBytes line :=
  notMem_asBytes (c := '\r') (by decide) h

theorem asBytes_ne_nil {line : Str} (h : line ≠ []) : asBytes line ≠ [] := by
  obtain ⟨c, line, rfl⟩ := List.exists_cons_of_ne_nil h
  simp [asBytes]

/-- The head of a message of lines ends where the lines do. -/
theorem findSubsequence_joinLines {first : Str} {rest : List Str} (hfirst : '\r' ∉ first)
    (hrest : ∀ line ∈ rest, line ≠ [] ∧ '\r' ∉ line) (body : Bytes) :
    findSubsequence (asBytes (joinLines '\r' '\n' first rest) ++ (CRLFCRLF ++ body)) CRLFCRLF =
      some (asBytes (joinLines '\r' '\n' first rest)).length := by
  induction rest generalizing first with
  | nil =>
    simp only [joinLines, List.flatMap_nil, List.append_nil]
    exact findSubsequence_skip (cr_notMem hfirst) (findSubsequence_blank body)
  | cons line rest ih =>
    obtain ⟨hne, hcr⟩ := hrest line (by simp)
    have hnext := ih hcr fun l hl => hrest l (by simp [hl])
    obtain ⟨b, bs, hb⟩ := List.exists_cons_of_ne_nil (asBytes_ne_nil hne)
    have hb13 : b ≠ 0x0D := fun heq => cr_notMem hcr (by rw [hb, heq]; exact List.mem_cons_self)
    have hline : asBytes (joinLines '\r' '\n' line rest) =
        b :: (bs ++ asBytes (rest.flatMap fun line => '\r' :: '\n' :: line)) := by
      rw [joinLines, asBytes_append, hb, List.cons_append]
    have hjoin : asBytes (joinLines '\r' '\n' first (line :: rest)) =
        asBytes first ++ 0x0D :: 0x0A :: asBytes (joinLines '\r' '\n' line rest) := by
      rw [joinLines_cons, asBytes_append]
      rfl
    rw [hline, List.cons_append] at hnext
    rw [hjoin, List.append_assoc, List.cons_append, List.cons_append, hline, List.cons_append,
      findSubsequence_skip (cr_notMem hfirst) (findSubsequence_lineEnd hb13 hnext)]
    simp only [List.length_append, List.length_cons]

/-! ### Header lines -/

/-- A header name: not empty, with no colon and no white space, line ends included. -/
def IsToken (name : Str) : Prop :=
  name ≠ [] ∧ ∀ c ∈ name, c ≠ ':' ∧ c ≠ '\r' ∧ c ≠ '\n' ∧ isWhitespace c = false

/-- A text on one line. -/
def OneLine (s : Str) : Prop := '\r' ∉ s ∧ '\n' ∉ s

/-- A header as it is written on its line. -/
def headerLine (field : Str × Str) : Str := field.1 ++ ':' :: ' ' :: field.2

/-- What is read from the line. -/
def readField (field : Str × Str) : Str × Str := (field.1, trim field.2)

theorem IsToken.trim {name : Str} (h : IsToken name) : Text.trim name = name :=
  trim_eq_self fun c hc => (h.2 c hc).2.2.2

theorem isToken_of_all {name : Str} (hne : name ≠ [])
    (h : name.all (fun c => c != ':' && c != '\r' && c != '\n' && !isWhitespace c) = true) :
    IsToken name := by
  refine ⟨hne, fun c hc => ?_⟩
  have hall := List.all_eq_true.mp h c hc
  simp only [Bool.and_eq_true, bne_iff_ne, Bool.not_eq_true'] at hall
  exact ⟨hall.1.1.1, hall.1.1.2, hall.1.2, hall.2⟩

theorem trim_blank_cons (s : Str) : trim (' ' :: s) = trim s := by
  rw [trim_eq, trim_eq, List.dropWhile_cons_of_pos (by decide)]

theorem parseHeaders_lines {fields : List (Str × Str)} (h : ∀ f ∈ fields, IsToken f.1) :
    parseHeaders (fields.map headerLine) = .ok (fields.map readField) := by
  induction fields with
  | nil => rfl
  | cons f fields ih =>
    obtain ⟨k, v⟩ := f
    have hk : IsToken k := h (k, v) (by simp)
    have hsplit : splitOnce ':' (headerLine (k, v)) = some (k, ' ' :: v) :=
      splitOnce_eq_some.mpr ⟨rfl, fun hmem => (hk.2 ':' hmem).1 rfl⟩
    have hne : headerLine (k, v) ≠ [] := by simp [headerLine]
    rw [List.map_cons, parseHeaders, if_neg hne, hsplit]
    dsimp only
    rw [ih fun f hf => h f (by simp [hf]), hk.trim, trim_blank_cons]
    rfl

theorem headerLine_oneLine {f : Str × Str} (hk : IsToken f.1) (hv : OneLine f.2) :
    headerLine f ≠ [] ∧ '\r' ∉ headerLine f := by
  refine ⟨by simp [headerLine], ?_⟩
  simp only [headerLine, List.mem_append, List.mem_cons, not_or]
  exact ⟨fun hmem => (hk.2 _ hmem).2.1 rfl, by decide, by decide, hv.1⟩

/-! ### Whole requests -/

/-- A request that can be framed: each part stays on its line. -/
structure Framed (req : RtspRequest) : Prop where
  method : OneLine req.method
  uri : OneLine req.uri
  name : ∀ f ∈ req.headers, IsToken f.1
  value : ∀ f ∈ req.headers, OneLine f.2

def RtspRequest.requestLine (req : RtspRequest) : Str :=
  req.method ++ " ".toList ++ req.uri ++ " RTSP/1.0".toList

/-- Line ends after the lines are line ends before them, shifted by one. -/
theorem flatMap_shift {α β : Type} (sep : List β) (f : α → List β) (l : List α) :
    sep ++ l.flatMap (fun a => f a ++ sep) = l.flatMap (fun a => sep ++ f a) ++ sep := by
  induction l with
  | nil => simp
  | cons a l ih => simp only [List.flatMap_cons, List.append_assoc, ih]

/-- A request on the wire: its lines, a blank line and its body. -/
theorem serialize_eq (req : RtspRequest) :
    req.serialize = asBytes (joinLines '\r' '\n' req.requestLine (req.headers.map headerLine)) ++
      (CRLFCRLF ++ req.body) := by
  have hfirst : asBytes (req.method ++ " ".toList ++ req.uri ++ " RTSP/1.0\r\n".toList) =
      asBytes req.requestLine ++ [0x0D, 0x0A] := by
    rw [show " RTSP/1.0\r\n".toList = " RTSP/1.0".toList ++ "\r\n".toList by decide,
      ← List.append_assoc, asBytes_append]
    rfl
  have hfields : (fun f : Str × Str => asBytes (f.1 ++ ": ".toList ++ f.2 ++ "\r\n".toList)) =
      fun f => asBytes (headerLine f) ++ [0x0D, 0x0A] := by
    funext f
    rw [asBytes_append, List.append_assoc f.1]
    rfl
  have hshift := flatMap_shift [0x0D, 0x0A] (fun f => asBytes (headerLine f)) req.headers
  have hjoin : asBytes (joinLines '\r' '\n' req.requestLine (req.headers.map headerLine)) =
      asBytes req.requestLine ++
        req.headers.flatMap fun f => [0x0D, 0x0A] ++ asBytes (headerLine f) := by
    rw [joinLines, asBytes_append, asBytes_flatMap, List.flatMap_map]
    rfl
  change asBytes (req.method ++ " ".toList ++ req.uri ++ " RTSP/1.0\r\n".toList) ++
    req.headers.flatMap (fun f => asBytes (f.1 ++ ": ".toList ++ f.2 ++ "\r\n".toList)) ++
    asBytes "\r\n".toList ++ req.body = _
  rw [hfirst, hjoin, hfields, List.append_assoc (asBytes _), hshift]
  simp only [List.append_assoc]
  rfl

/-- A request that can be framed and declares its own length is read back whole. -/
theorem readRequest_serialize (build : Build) {req : RtspRequest} (h : Framed req)
    (hlength : contentLen (req.headers.map readField) = req.body.length)
    (hfits : req.serialize.length ≤ USIZE_MAX) :
    readRequest build req.serialize =
      some ((req.requestLine, req.headers.map readField, req.body), req.serialize.length) := by
  have hline : '\r' ∉ req.requestLine := by
    simp only [RtspRequest.requestLine, List.mem_append, not_or]
    exact ⟨⟨⟨h.method.1, by decide⟩, h.uri.1⟩, by decide⟩
  have hlines : ∀ line ∈ req.headers.map headerLine, line ≠ [] ∧ '\r' ∉ line := by
    intro line hmem
    obtain ⟨f, hf, rfl⟩ := List.mem_map.mp hmem
    exact headerLine_oneLine (h.name f hf) (h.value f hf)
  set head := joinLines '\r' '\n' req.requestLine (req.headers.map headerLine) with hhead
  have hserial : req.serialize = asBytes head ++ (CRLFCRLF ++ req.body) := serialize_eq req
  have hlen : req.serialize.length = (asBytes head).length + 4 + req.body.length := by
    rw [hserial, List.length_append, List.length_append, Nat.add_assoc]
    rfl
  have hfind : findSubsequence req.serialize CRLFCRLF = some (asBytes head).length := by
    rw [hserial]
    exact findSubsequence_joinLines hline hlines req.body
  have htake : req.serialize.take (asBytes head).length = asBytes head := by
    rw [hserial]
    exact List.take_left' rfl
  have hsplit : splitPair '\r' '\n' head = req.requestLine :: req.headers.map headerLine :=
    splitPair_joinLines hline fun line hmem => (hlines line hmem).2
  have hadd : usizeAdd build ((asBytes head).length + 4) req.body.length =
      some req.serialize.length := by
    rw [hlen] at hfits ⊢
    exact if_pos hfits
  have hslice : slice req.serialize ((asBytes head).length + 4) req.serialize.length =
      some req.body := by
    have hhead : (asBytes head ++ CRLFCRLF).length = (asBytes head).length + 4 := by
      rw [List.length_append]
      rfl
    rw [slice, if_pos ⟨by omega, le_rfl⟩, List.take_length, hserial, ← List.append_assoc,
      List.drop_left' hhead]
  unfold readRequest
  simp only [hfind, htake, fromUtf8_asBytes, hsplit, parseHeaders_lines h.name, hlength, hadd,
    Option.bind_some, if_neg (lt_irrefl req.serialize.length), hslice, Option.map_some]

/-! ### Chains of builder calls -/

/-- One of the headers that `with_body` sets. -/
def isContent (field : Str × Str) : Bool :=
  eqIgnoreAsciiCase field.1 "content-type".toList ||
    eqIgnoreAsciiCase field.1 "content-length".toList

/-- The header that a call adds. -/
def BuilderCall.field : BuilderCall → Option (Str × Str)
  | header name value => some (name, value)
  | withBody .. => none

/-- What the `header` calls of a chain add, less the headers that `with_body` sets. -/
def ownHeaders (calls : List BuilderCall) : List (Str × Str) :=
  (calls.filterMap BuilderCall.field).filter fun f => !isContent f

/-- A call whose texts stay on their lines. -/
def BuilderCall.Framed : BuilderCall → Prop
  | header name value => IsToken name ∧ OneLine value
  | withBody contentType _ => OneLine contentType

/-- The headers that `with_body` sets for a body. -/
def contentFields (contentType : Str) (body : Bytes) : List (Str × Str) :=
  [("Content-Type".toList, contentType), ("Content-Length".toList, decimal body.length)]

theorem withBody_headers (req : RtspRequest) (contentType : Str) (body : Bytes) :
    (req.withBody contentType body).headers =
      (req.headers.filter fun f => !isContent f) ++ contentFields contentType body := by
  unfold RtspRequest.withBody contentFields isContent
  simp only [Bool.not_or]

theorem isContent_type (v : Str) : isContent ("Content-Type".toList, v) = true := by
  change (eqIgnoreAsciiCase "Content-Type".toList "content-type".toList ||
    eqIgnoreAsciiCase "Content-Type".toList "content-length".toList) = true
  decide +kernel

theorem isContent_length (v : Str) : isContent ("Content-Length".toList, v) = true := by
  change (eqIgnoreAsciiCase "Content-Length".toList "content-type".toList ||
    eqIgnoreAsciiCase "Content-Length".toList "content-length".toList) = true
  decide +kernel

theorem contentFields_isContent (contentType : Str) (body : Bytes) :
    (contentFields contentType body).filter (fun f => !isContent f) = [] := by
  rw [contentFields, List.filter_cons_of_neg (by rw [isContent_type]; decide),
    List.filter_cons_of_neg (by rw [isContent_length]; decide), List.filter_nil]

/-- Of the headers of a chain only those that `with_body` sets can be lost. -/
theorem chain_headers (method uri : Str) (calls : List BuilderCall) :
    (((RtspRequest.new method uri).chain calls).headers.filter fun f => !isContent f) =
      ownHeaders calls := by
  induction calls using List.reverseRecOn with
  | nil => rfl
  | append_singleton calls c ih =>
    have hstep : (RtspRequest.new method uri).chain (calls ++ [c]) =
        ((RtspRequest.new method uri).chain calls).call c := by
      simp [RtspRequest.chain]
    rw [hstep]
    unfold ownHeaders at ih ⊢
    cases c with
    | header name value =>
      simp only [RtspRequest.call, RtspRequest.header, List.filter_append, ih,
        List.filterMap_append,
        List.filterMap_cons, List.filterMap_nil, BuilderCall.field]
    | withBody contentType body =>
      simp only [RtspRequest.call, withBody_headers, List.filter_append, contentFields_isContent,
        List.filterMap_append, List.filterMap_cons, List.filterMap_nil, BuilderCall.field,
        List.append_nil, List.filter_filter, Bool.and_self, ih]

/-- A chain of calls whose texts stay on their lines adds only such headers. -/
theorem ownHeaders_framed {calls : List BuilderCall} (h : ∀ c ∈ calls, c.Framed) :
    ∀ f ∈ ownHeaders calls, IsToken f.1 ∧ OneLine f.2 ∧ isContent f = false := by
  intro f hf
  obtain ⟨hmem, hown⟩ := List.mem_filter.mp hf
  obtain ⟨c, hc, hfield⟩ := List.mem_filterMap.mp hmem
  have hframed := h c hc
  cases c with
  | header name value =>
    cases hfield
    exact ⟨hframed.1, hframed.2, by simpa using hown⟩
  | withBody => cases hfield

theorem chain_line (method uri : Str) (calls : List BuilderCall) :
    ((RtspRequest.new method uri).chain calls).method = method ∧
      ((RtspRequest.new method uri).chain calls).uri = uri := by
  induction calls using List.reverseRecOn with
  | nil => exact ⟨rfl, rfl⟩
  | append_singleton calls c ih =>
    simp only [RtspRequest.chain, List.foldl_append, List.foldl_cons, List.foldl_nil] at ih ⊢
    cases c <;> exact ih

/-- The request that ends a chain with a body and then gets its `CSeq`. -/
def sentRequest (method uri : Str) (calls : List BuilderCall) (contentType : Str) (body : Bytes)
    (cseq : UInt32) : RtspRequest :=
  (((RtspRequest.new method uri).chain calls).withBody contentType body).header "CSeq".toList
    (decimal cseq.toNat)

theorem sentRequest_headers (method uri : Str) (calls : List BuilderCall) (contentType : Str)
    (body : Bytes) (cseq : UInt32) :
    (sentRequest method uri calls contentType body cseq).headers =
      ownHeaders calls ++ contentFields contentType body ++
        [("CSeq".toList, decimal cseq.toNat)] := by
  rw [sentRequest, RtspRequest.header, withBody_headers, chain_headers]

theorem oneLine_decimal (n : ℕ) : OneLine (decimal n) :=
  ⟨notMem_toDigits (by decide) (by decide) (by decide) n,
    notMem_toDigits (by decide) (by decide) (by decide) n⟩

theorem isToken_contentType : IsToken "Content-Type".toList :=
  isToken_of_all (by decide) (by decide)

theorem isToken_contentLength : IsToken "Content-Length".toList :=
  isToken_of_all (by decide) (by decide)

theorem isToken_cseq : IsToken "CSeq".toList :=
  isToken_of_all (by decide) (by decide)

theorem sentRequest_framed {method uri contentType : Str} {calls : List BuilderCall} {body : Bytes}
    {cseq : UInt32} (hmethod : OneLine method) (huri : OneLine uri)
    (hcalls : ∀ c ∈ calls, c.Framed) (htype : OneLine contentType) :
    Framed (sentRequest method uri calls contentType body cseq) := by
  obtain ⟨hm, hu⟩ := chain_line method uri calls
  have hfields : ∀ f ∈ (sentRequest method uri calls contentType body cseq).headers,
      IsToken f.1 ∧ OneLine f.2 := by
    intro f hf
    rw [sentRequest_headers, List.mem_append, List.mem_append] at hf
    rcases hf with (hf | hf) | hf
    · obtain ⟨hname, hvalue, -⟩ := ownHeaders_framed hcalls f hf
      exact ⟨hname, hvalue⟩
    · rcases List.mem_pair.mp hf with rfl | rfl
      · exact ⟨isToken_contentType, htype⟩
      · exact ⟨isToken_contentLength, oneLine_decimal _⟩
    · obtain rfl := List.mem_singleton.mp hf
      exact ⟨isToken_cseq, oneLine_decimal _⟩
  exact ⟨by rwa [← hm] at hmethod, by rwa [← hu] at huri, fun f hf => (hfields f hf).1,
    fun f hf => (hfields f hf).2⟩

/-- The headers that are read of a request with a body. -/
def readHeaders (calls : List BuilderCall) (contentType : Str) (body : Bytes) (cseq : UInt32) :
    List (Str × Str) :=
  (ownHeaders calls).map readField ++
    [("Content-Type".toList, trim contentType), ("Content-Length".toList, decimal body.length),
      ("CSeq".toList, decimal cseq.toNat)]

theorem sentRequest_readField (method uri : Str) (calls : List BuilderCall) (contentType : Str)
    (body : Bytes) (cseq : UInt32) :
    (sentRequest method uri calls contentType body cseq).headers.map readField =
      readHeaders calls contentType body cseq := by
  rw [sentRequest_headers, readHeaders, List.map_append, List.map_append, List.append_assoc]
  simp only [contentFields, List.map_cons, List.map_nil, readField, trim_decimal,
    List.cons_append, List.nil_append]

/-- The chain's own headers are not found under the names of the two others. -/
theorem filter_ownHeaders (calls : List BuilderCall) {name : Str}
    (hname : ∀ f : Str × Str, eqIgnoreAsciiCase f.1 name = true → isContent f = true) :
    ((ownHeaders calls).map readField).filter (fun f => eqIgnoreAsciiCase f.1 name) = [] := by
  refine List.filter_eq_nil_iff.mpr fun f hf heq => ?_
  obtain ⟨own, hown, rfl⟩ := List.mem_map.mp hf
  have hnot := (List.mem_filter.mp hown).2
  simp [hname own heq] at hnot

/-- Of the three headers that end a request each name finds at most its own. -/
theorem filter_triple {a b c : Str × Str} {name : Str} {x y z : Bool}
    (ha : eqIgnoreAsciiCase a.1 name = x) (hb : eqIgnoreAsciiCase b.1 name = y)
    (hc : eqIgnoreAsciiCase c.1 name = z) :
    ([a, b, c].filter fun f => eqIgnoreAsciiCase f.1 name) =
      (if x then [a] else []) ++ (if y then [b] else []) ++ if z then [c] else [] := by
  subst ha hb hc
  simp only [List.filter_cons, List.filter_nil]
  split <;> split <;> split <;> rfl

theorem readHeaders_type (calls : List BuilderCall) (contentType : Str) (body : Bytes)
    (cseq : UInt32) :
    ((readHeaders calls contentType body cseq).filter fun f =>
      eqIgnoreAsciiCase f.1 "content-type".toList) =
      [("Content-Type".toList, trim contentType)] := by
  have htype : eqIgnoreAsciiCase "Content-Type".toList "content-type".toList = true := by
    decide +kernel
  have hlength : eqIgnoreAsciiCase "Content-Length".toList "content-type".toList = false := by
    decide +kernel
  have hcseq : eqIgnoreAsciiCase "CSeq".toList "content-type".toList = false := by
    decide +kernel
  rw [readHeaders, List.filter_append,
    filter_ownHeaders calls fun f h => by rw [isContent, h, Bool.true_or],
    filter_triple htype hlength hcseq]
  rfl

theorem readHeaders_length (calls : List BuilderCall) (contentType : Str) (body : Bytes)
    (cseq : UInt32) :
    ((readHeaders calls contentType body cseq).filter fun f =>
      eqIgnoreAsciiCase f.1 "content-length".toList) =
      [("Content-Length".toList, decimal body.length)] := by
  have htype : eqIgnoreAsciiCase "Content-Type".toList "content-length".toList = false := by
    decide +kernel
  have hlength : eqIgnoreAsciiCase "Content-Length".toList "content-length".toList = true := by
    decide +kernel
  have hcseq : eqIgnoreAsciiCase "CSeq".toList "content-length".toList = false := by
    decide +kernel
  rw [readHeaders, List.filter_append,
    filter_ownHeaders calls fun f h => by rw [isContent, h, Bool.or_true],
    filter_triple htype hlength hcseq]
  rfl

theorem contentLengths_eq_filter (headers : List (Str × Str)) :
    contentLengths headers =
      (headers.filter fun f => eqIgnoreAsciiCase f.1 "content-length".toList).map Prod.snd := by
  unfold contentLengths
  generalize "content-length".toList = name
  induction headers with
  | nil => rfl
  | cons f headers ih =>
    obtain ⟨k, v⟩ := f
    cases hk : eqIgnoreAsciiCase k name <;> simp [hk, ih]

theorem readHeaders_contentLen (calls : List BuilderCall) (contentType : Str) {body : Bytes}
    (cseq : UInt32) (hfits : body.length ≤ USIZE_MAX) :
    contentLen (readHeaders calls contentType body cseq) = body.length := by
  obtain ⟨hdigits, hvalue⟩ := decimal_digits body.length
  rw [contentLen, findHeader_eq, contentLengths_eq_filter, readHeaders_length]
  simp only [List.map_cons, List.map_nil, List.head?_cons, Option.bind_some,
    parseUnsigned_digits hdigits, hvalue, if_pos hfits, Option.getD_some]

/-- Every request that a chain builds and ends with a body reads back under the framing
of responses: its line, its own headers in order with their values trimmed, the two
headers of the body once each, the number of the call, and the body, with no byte left.
No vector is longer than `hfits` says. -/
theorem request_framing (build : Build) (method uri : Str) (calls : List BuilderCall)
    (contentType : Str) (body : Bytes) (cseq : UInt32) (hmethod : OneLine method)
    (huri : OneLine uri) (hcalls : ∀ c ∈ calls, c.Framed) (htype : OneLine contentType)
    (hfits : (sentRequest method uri calls contentType body cseq).serialize.length ≤ USIZE_MAX) :
    let sent := (sentRequest method uri calls contentType body cseq).serialize
    let headers := (ownHeaders calls).map readField ++
      [("Content-Type".toList, trim contentType), ("Content-Length".toList, decimal body.length),
        ("CSeq".toList, decimal cseq.toNat)]
    readRequest build sent =
        some ((method ++ " ".toList ++ uri ++ " RTSP/1.0".toList, headers, body), sent.length) ∧
      (headers.filter fun f => eqIgnoreAsciiCase f.1 "content-type".toList) =
        [("Content-Type".toList, trim contentType)] ∧
      (headers.filter fun f => eqIgnoreAsciiCase f.1 "content-length".toList) =
        [("Content-Length".toList, decimal body.length)] := by
  intro sent headers
  have hframed : Framed (sentRequest method uri calls contentType body cseq) :=
    sentRequest_framed hmethod huri hcalls htype
  have hbody : (sentRequest method uri calls contentType body cseq).body = body := rfl
  have hread := readRequest_serialize build hframed (by
    rw [sentRequest_readField, hbody]
    refine readHeaders_contentLen calls contentType cseq (le_trans ?_ hfits)
    rw [serialize_eq, List.length_append, List.length_append, hbody]
    omega) hfits
  obtain ⟨hm, hu⟩ := chain_line method uri calls
  have hline : (sentRequest method uri calls contentType body cseq).requestLine =
      method ++ " ".toList ++ uri ++ " RTSP/1.0".toList := by
    change ((RtspRequest.new method uri).chain calls).method ++ " ".toList ++
      ((RtspRequest.new method uri).chain calls).uri ++ " RTSP/1.0".toList = _
    rw [hm, hu]
  rw [sentRequest_readField, hline] at hread
  exact ⟨hread, readHeaders_type calls contentType body cseq,
    readHeaders_length calls contentType body cseq⟩

/-- A stale length in other letters is replaced, and a blank line in the body stays in it. -/
theorem request_framing_pair :
    let calls := [.header "X-Apple-HKP".toList "3 ".toList,
      .header "content-LENGTH".toList "999".toList, .withBody "a/b".toList [0x61, 0x62]]
    let sent := (sentRequest "POST".toList "/pair".toList calls "t/x".toList
      [0x0D, 0x0A, 0x0D, 0x0A, 0x41] 1).serialize
    readRequest .debug sent = some (("POST /pair RTSP/1.0".toList,
      [("X-Apple-HKP".toList, "3".toList), ("Content-Type".toList, "t/x".toList),
        ("Content-Length".toList, "5".toList), ("CSeq".toList, "1".toList)],
      [0x0D, 0x0A, 0x0D, 0x0A, 0x41]), sent.length) := by
  have hcalls : ∀ c ∈ [BuilderCall.header "X-Apple-HKP".toList "3 ".toList,
      .header "content-LENGTH".toList "999".toList, .withBody "a/b".toList [0x61, 0x62]],
      c.Framed := by
    intro c hc
    rcases List.mem_cons.mp hc with rfl | hc
    · exact ⟨isToken_of_all (by decide) (by decide), by decide, by decide⟩
    rcases List.mem_pair.mp hc with rfl | rfl
    · exact ⟨isToken_of_all (by decide) (by decide), by decide, by decide⟩
    · exact ⟨by decide, by decide⟩
  exact (request_framing .debug "POST".toList "/pair".toList _ "t/x".toList
    [0x0D, 0x0A, 0x0D, 0x0A, 0x41] 1 ⟨by decide, by decide⟩ ⟨by decide, by decide⟩ hcalls
    ⟨by decide, by decide⟩ (by decide +kernel)).1

end HorizonCast
