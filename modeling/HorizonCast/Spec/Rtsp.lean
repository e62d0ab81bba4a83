import HorizonCast.Lib.Text
import HorizonCast.Spec.Basic

/-! RTSP message framing and the control connection (`hc-net/src/rtsp.rs`). -/

namespace HorizonCast

open Text

/-- The errors of this module, with the line or the I/O error they quote. -/
inductive RtspError where
  | headerNotUtf8
  | emptyResponse
  | invalidStatusLine (line : Str)
  | invalidStatusCode (line : Str)
  | malformedHeader (line : Str)
  | connectionClosed
  | write (e : Str)
  | flush (e : Str)
  | read (e : Str)
  deriving DecidableEq, Repr

/-- The message of an error; `quote` is the `{:?}` of a string. -/
def RtspError.message (quote : Str → Str) : RtspError → Str
  | .headerNotUtf8 => "protocol error: RTSP header is not valid UTF-8".toList
  | .emptyResponse => "protocol error: empty RTSP response".toList
  | .invalidStatusLine line => "protocol error: invalid RTSP status line: ".toList ++ quote line
  | .invalidStatusCode line => "protocol error: invalid RTSP status code: ".toList ++ quote line
  | .malformedHeader line => "protocol error: malformed RTSP header: ".toList ++ quote line
  | .connectionClosed =>
    "protocol error: connection closed before a complete RTSP response".toList
  | .write e => "sink error: RTSP write: ".toList ++ e
  | .flush e => "sink error: RTSP flush: ".toList ++ e
  | .read e => "sink error: RTSP read: ".toList ++ e

/-- What a call does: it returns, or it panics. -/
inductive Outcome (α : Type) where
  | ok (a : α)
  | err (e : RtspError)
  | panic
  deriving DecidableEq, Repr

structure RtspResponse where
  status : ℕ
  reason : Str
  headers : List (Str × Str)
  body : Bytes
  deriving DecidableEq, Repr

/-- `str::find` of a header by name, and its value. -/
def findHeader (headers : List (Str × Str)) (name : Str) : Option Str :=
  (headers.find? fun (k, _) => eqIgnoreAsciiCase k name).map Prod.snd

def RtspResponse.header (r : RtspResponse) (name : Str) : Option Str := findHeader r.headers name

/-- The index of the first window of `haystack` that equals `needle`. -/
def findSubsequence (haystack needle : Bytes) : Option ℕ :=
  if needle = [] ∨ haystack.length < needle.length then none
  else (List.range (haystack.length - needle.length + 1)).find? fun i =>
    (haystack.drop i).take needle.length = needle

def CRLFCRLF : Bytes := [0x0D, 0x0A, 0x0D, 0x0A]

/-- The header loop: blank lines are skipped, any other line needs a colon. -/
def parseHeaders : List Str → Except RtspError (List (Str × Str))
  | [] => .ok []
  | line :: lines =>
    if line = [] then parseHeaders lines
    else
      match splitOnce ':' line with
      | some (k, v) => (parseHeaders lines).map fun headers => (trim k, trim v) :: headers
      | none => .error (.malformedHeader line)

/-- The part of `parse` that reads the bytes before the blank line: status,
reason and headers. -/
def parseHead (head : Bytes) : Except RtspError (ℕ × Str × List (Str × Str)) :=
  match fromUtf8 head with
  | none => .error .headerNotUtf8
  | some head =>
    match splitPair '\r' '\n' head with
    | [] => .error .emptyResponse
    | statusLine :: lines =>
      let parts := splitn 3 ' ' statusLine
      if !startsWith (parts.getD 0 []) "RTSP/".toList then .error (.invalidStatusLine statusLine)
      else
        match (parts[1]?).bind (parseUnsigned (2 ^ 16 - 1)) with
        | none => .error (.invalidStatusCode statusLine)
        | some status =>
          (parseHeaders lines).map fun headers => (status, parts.getD 2 [], headers)

/-- The first `Content-Length`; one that is missing or not a `usize` counts as 0. -/
def contentLen (headers : List (Str × Str)) : ℕ :=
  ((findHeader headers "content-length".toList).bind (parseUnsigned USIZE_MAX)).getD 0

/-- `head_end + 4` is at most `buf.len()`, so only the second addition can overflow. -/
def RtspResponse.parse (build : Build) (buf : Bytes) : Outcome (Option (RtspResponse × ℕ)) :=
  match findSubsequence buf CRLFCRLF with
  | none => .ok none
  | some headEnd =>
    match parseHead (buf.take headEnd) with
    | .error e => .err e
    | .ok (status, reason, headers) =>
      let bodyStart := headEnd + 4
      match usizeAdd build bodyStart (contentLen headers) with
      | none => .panic
      | some bodyEnd =>
        if buf.length < bodyEnd then .ok none
        else
          match slice buf bodyStart bodyEnd with
          | none => .panic
          | some body => .ok (some (⟨status, reason, headers, body⟩, bodyEnd))

/-! ### Requests -/

structure RtspRequest where
  method : Str
  uri : Str
  headers : List (Str × Str) := []
  body : Bytes := []
  deriving DecidableEq, Repr

def RtspRequest.new (method uri : Str) : RtspRequest := { method, uri }

def RtspRequest.header (req : RtspRequest) (name value : Str) : RtspRequest :=
  { req with headers := req.headers ++ [(name, value)] }

/-- Attach a body, setting `Content-Type` and `Content-Length` (replacing any existing
values of those headers). -/
def RtspRequest.withBody (req : RtspRequest) (contentType : Str) (body : Bytes) : RtspRequest :=
  { req with
    headers := req.headers.filter (fun (k, _) =>
        !eqIgnoreAsciiCase k "content-type".toList &&
          !eqIgnoreAsciiCase k "content-length".toList) ++
      [("Content-Type".toList, contentType), ("Content-Length".toList, decimal body.length)]
    body }

def RtspRequest.serialize (req : RtspRequest) : Bytes :=
  asBytes (req.method ++ " ".toList ++ req.uri ++ " RTSP/1.0\r\n".toList) ++
    req.headers.flatMap (fun (k, v) => asBytes (k ++ ": ".toList ++ v ++ "\r\n".toList)) ++
    asBytes "\r\n".toList ++ req.body

/-- A call on a request that is being built. -/
inductive BuilderCall where
  | header (name value : Str)
  | withBody (contentType : Str) (body : Bytes)

def RtspRequest.call (req : RtspRequest) : BuilderCall → RtspRequest
  | .header name value => req.header name value
  | .withBody contentType body => req.withBody contentType body

/-- A chain of builder calls. -/
def RtspRequest.chain (req : RtspRequest) (calls : List BuilderCall) : RtspRequest :=
  calls.foldl RtspRequest.call req

/-- A request read with the rules of `parse`: its first line, its headers, its body
and the number of bytes it takes. Only the first line is not looked into. -/
def readRequest (build : Build) (buf : Bytes) : Option ((Str × List (Str × Str) × Bytes) × ℕ) :=
  match findSubsequence buf CRLFCRLF with
  | none => none
  | some headEnd =>
    match fromUtf8 (buf.take headEnd) with
    | none => none
    | some head =>
      match splitPair '\r' '\n' head with
      | [] => none
      | requestLine :: lines =>
        match parseHeaders lines with
        | .error _ => none
        | .ok headers =>
          let bodyStart := headEnd + 4
          (usizeAdd build bodyStart (contentLen headers)).bind fun bodyEnd =>
            if buf.length < bodyEnd then none
            else (slice buf bodyStart bodyEnd).map fun body =>
              ((requestLine, headers, body), bodyEnd)

/-! ### The control connection -/

/-- What the socket answers to the write and the flush of one request. -/
inductive WriteResult where
  | ok
  | writeFailed (e : Str)
  | flushFailed (e : Str)
  deriving DecidableEq, Repr

/-- A connection: its buffer and counter, and the socket, as the reads it will
still return and the bytes written to it. A socket with no reads left is at the
end of its stream. -/
structure RtspConnection where
  buf : Bytes := []
  cseq : UInt32 := 0
  reads : List Bytes
  sent : List Bytes := []
  deriving DecidableEq, Repr

/-- The loop of `request`: parse the buffer, and read more while it holds no full message. -/
def readResponse (build : Build) : Bytes → List Bytes → Outcome RtspResponse × Bytes × List Bytes
  | buf, reads =>
    match RtspResponse.parse build buf with
    | .panic => (.panic, buf, reads)
    | .err e => (.err e, buf, reads)
    | .ok (some (resp, consumed)) => (.ok resp, buf.drop consumed, reads)
    | .ok none =>
      match reads with
      | [] => (.err .connectionClosed, buf, [])
      | chunk :: reads =>
        if chunk = [] then (.err .connectionClosed, buf, reads)
        else readResponse build (buf ++ chunk) reads

/-- The counter is a `u32`, and wraps. -/
def RtspConnection.nextCseq (conn : RtspConnection) : UInt32 := conn.cseq + 1

def RtspConnection.request (build : Build) (conn : RtspConnection) (req : RtspRequest)
    (io : WriteResult) : Outcome RtspResponse × RtspConnection :=
  let conn := { conn with cseq := conn.nextCseq }
  let req := req.header "CSeq".toList (decimal conn.cseq.toNat)
  match io with
  | .writeFailed e => (.err (.write e), conn)
  | .flushFailed e => (.err (.flush e), { conn with sent := conn.sent ++ [req.serialize] })
  | .ok =>
    let conn := { conn with sent := conn.sent ++ [req.serialize] }
    let (result, buf, reads) := readResponse build conn.buf conn.reads
    (result, { conn with buf, reads })

/-- Successive requests on one connection, and what each returned. A panic ends the run. -/
def RtspConnection.run (build : Build) :
    RtspConnection → List (RtspRequest × WriteResult) → List (Outcome RtspResponse) × RtspConnection
  | conn, [] => ([], conn)
  | conn, (req, io) :: calls =>
    let (result, conn) := conn.request build req io
    if result = .panic then ([result], conn)
    else
      let (results, conn) := run build conn calls
      (result :: results, conn)

/-- What the server sent and no call has consumed: buffered, then still unread. -/
def RtspConnection.unconsumed (conn : RtspConnection) : Bytes := conn.buf ++ conn.reads.flatten

/-! ### Calls that are cut short -/

/-- The read loop of `request`, for at most `k` reads. `none` when it then awaits
one more. -/
def readUpTo (build : Build) :
    ℕ → Bytes → List Bytes → Option (Outcome RtspResponse) × Bytes × List Bytes
  | k, buf, reads =>
    match RtspResponse.parse build buf with
    | .panic => (some .panic, buf, reads)
    | .err e => (some (.err e), buf, reads)
    | .ok (some (resp, consumed)) => (some (.ok resp), buf.drop consumed, reads)
    | .ok none =>
      match k, reads with
      | 0, reads => (none, buf, reads)
      | _ + 1, [] => (some (.err .connectionClosed), buf, [])
      | k + 1, chunk :: reads =>
        if chunk = [] then (some (.err .connectionClosed), buf, reads)
        else readUpTo build k (buf ++ chunk) reads

/-- How a call of `request` ends: it returns, the read after `reads` others fails, or
its future is dropped while it awaits the write, the flush or the read after `reads`
others. -/
inductive Fate where
  | returns (io : WriteResult)
  | readFails (reads : ℕ) (e : Str)
  | droppedInWrite (written : ℕ)
  | droppedInFlush
  | droppedInRead (reads : ℕ)
  deriving DecidableEq, Repr

/-- What every call has done once its bytes are written. -/
def RtspConnection.written (conn : RtspConnection) (req : RtspRequest) : RtspConnection :=
  let conn := { conn with cseq := conn.nextCseq }
  let req := req.header "CSeq".toList (decimal conn.cseq.toNat)
  { conn with sent := conn.sent ++ [req.serialize] }

/-- The counter is at `u32::MAX`: in a debug build the next call panics at once. -/
def RtspConnection.exhausted (build : Build) (conn : RtspConnection) : Bool :=
  decide (build = .debug ∧ conn.cseq = 0xFFFFFFFF)

/-- A call of `request` that has a number, with its fate: what the caller gets, if anything. -/
def RtspConnection.numbered (build : Build) (conn : RtspConnection) (req : RtspRequest) :
    Fate → Option (Outcome RtspResponse) × RtspConnection
  | .returns io =>
    let (result, conn) := conn.request build req io
    (some result, conn)
  | .readFails k e =>
    let conn := conn.written req
    let (result, buf, reads) := readUpTo build k conn.buf conn.reads
    (some (result.getD (.err (.read e))), { conn with buf, reads })
  | .droppedInWrite n =>
    let conn := { conn with cseq := conn.nextCseq }
    let req := req.header "CSeq".toList (decimal conn.cseq.toNat)
    (none, { conn with sent := conn.sent ++ [req.serialize.take n] })
  | .droppedInFlush => (none, conn.written req)
  | .droppedInRead k =>
    let conn := conn.written req
    let (result, buf, reads) := readUpTo build k conn.buf conn.reads
    (result, { conn with buf, reads })

/-- One call of `request` with its fate. -/
def RtspConnection.exchange (build : Build) (conn : RtspConnection) (req : RtspRequest)
    (fate : Fate) : Option (Outcome RtspResponse) × RtspConnection :=
  if conn.exhausted build then (some .panic, conn) else conn.numbered build req fate

/-- Successive calls on one connection: what the callers got, each with the `CSeq`
that its call sent. A panic ends the run. -/
def RtspConnection.session (build : Build) :
    RtspConnection → List (RtspRequest × Fate) → List (UInt32 × Outcome RtspResponse)
  | _, [] => []
  | conn, (req, fate) :: calls =>
    match conn.exchange build req fate with
    | (some .panic, _) => [(conn.nextCseq, .panic)]
    | (some result, after) => (conn.nextCseq, result) :: session build after calls
    | (none, after) => session build after calls

end HorizonCast
