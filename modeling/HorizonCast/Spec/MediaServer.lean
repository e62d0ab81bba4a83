import HorizonCast.Lib.Text

/-! The local media server (`hc-net/src/media_server.rs`): the content type of a
file and range requests for it. What the file system answers during a request is
an argument. -/

namespace HorizonCast

open Text

/-- DLNA `contentFeatures.dlna.org` value: range/seek supported, streaming flags. -/
def DLNA_CONTENT_FEATURES : Str :=
  "DLNA.ORG_OP=01;DLNA.ORG_CI=0;DLNA.ORG_FLAGS=01700000000000000000000000000000".toList

/-- `u64::MAX`. -/
def u64Max : ℕ := 0xFFFFFFFFFFFFFFFF

/-! ### Paths -/

/-- `Path::file_name` on Unix. -/
def fileName (path : Str) : Option Str :=
  match ((split '/' path).filter fun part => part ≠ [] ∧ part ≠ ['.']).getLast? with
  | some part => if part = ['.', '.'] then none else some part
  | none => none

/-- The name of a file before its last dot, and the extension after it. A dot
that starts the name does not count. -/
def splitAtDot (name : Str) : Str × Option Str :=
  let after := name.rtakeWhile (· ≠ '.')
  let before := name.take (name.length - after.length - 1)
  if before = [] then (name, none) else (before, some after)

/-- `Path::file_stem`. -/
def fileStem (path : Str) : Option Str := (fileName path).map fun name => (splitAtDot name).1

/-- `Path::extension`. -/
def extension (path : Str) : Option Str := (fileName path).bind fun name => (splitAtDot name).2

def CONTENT_TYPES : List (Str × Str) := [
  ("mp4".toList, "video/mp4".toList),
  ("m4v".toList, "video/mp4".toList),
  ("mkv".toList, "video/x-matroska".toList),
  ("mov".toList, "video/quicktime".toList),
  ("webm".toList, "video/webm".toList),
  ("avi".toList, "video/x-msvideo".toList),
  ("ts".toList, "video/mp2t".toList),
  ("mpeg".toList, "video/mpeg".toList),
  ("mpg".toList, "video/mpeg".toList),
  ("mp3".toList, "audio/mpeg".toList),
  ("flac".toList, "audio/flac".toList),
  ("aac".toList, "audio/aac".toList),
  ("wav".toList, "audio/wav".toList),
  ("jpg".toList, "image/jpeg".toList),
  ("jpeg".toList, "image/jpeg".toList),
  ("png".toList, "image/png".toList)]

/-- Map a file extension to a sensible `Content-Type` for TV playback. -/
def contentTypeFor (path : Str) : Str :=
  match (extension path).map fun ext => ext.map Char.toLower with
  | some ext => (CONTENT_TYPES.lookup ext).getD "application/octet-stream".toList
  | none => "application/octet-stream".toList

/-! ### Ranges -/

/-- Parse a single HTTP `Range` header value against a known `total` length,
returning an inclusive byte range clamped to the file. -/
def parseRange (value : Str) (total : ℕ) : Option (ℕ × ℕ) := do
  if total = 0 then none
  else
    let last := total - 1
    let spec ← value.dropPrefix? "bytes=".toList
    let spec ← (split ',' spec).head?
    let (s, e) ← splitOnce '-' (trim spec)
    let (start, stop) ←
      if s = [] then do
        -- Suffix form: the final `n` bytes.
        let n ← parseUnsigned u64Max e
        if n = 0 then none else some (total - n, last)
      else do
        let start ← parseUnsigned u64Max s
        let stop ← if e = [] then some last else (parseUnsigned u64Max e).map fun n => min n last
        some (start, stop)
    if stop < start ∨ last < start then none else some (start, stop)

/-- The `Content-Range` of a part. -/
def contentRange (start stop total : ℕ) : Str :=
  "bytes ".toList ++ (decimal start ++ '-' :: (decimal stop ++ '/' :: decimal total))

/-- Whether `value` is a `bytes=` range that cannot be satisfied for `total`. -/
def rangeIsUnsatisfiable (value : Str) (total : ℕ) : Bool :=
  match value.dropPrefix? "bytes=".toList with
  | none => false
  | some spec =>
    match splitOnce '-' (trim ((split ',' spec).head?.getD [])) with
    | none => false
    | some (start, stop) =>
      if start = [] then parseUnsigned u64Max stop = some 0
      else (parseUnsigned u64Max start).any fun s => total ≤ s

/-! ### Requests and responses -/

inductive Method where
  | get
  | head
  | other (name : Str)
  deriving DecidableEq, Repr

/-- A request: its method, the value of its `Range` header if that is a visible
text, and whether it has a `getcontentfeatures.dlna.org` header. -/
structure Request where
  method : Method
  range : Option Str
  wantsContentFeatures : Bool

inductive StatusCode where
  | ok
  | partialContent
  | notFound
  | rangeNotSatisfiable
  | internalServerError
  deriving DecidableEq, Repr

abbrev HeaderMap := List (Str × Str)

/-- `HeaderMap::insert`. -/
def HeaderMap.put (out : HeaderMap) (name value : Str) : HeaderMap :=
  out.filter (·.1 ≠ name) ++ [(name, value)]

structure Response where
  status : StatusCode
  headers : HeaderMap
  body : List UInt8

def Response.header (resp : Response) (name : Str) : Option Str := resp.headers.lookup name

/-- An open file: its metadata (the length), its bytes, and the outcome of a seek. -/
structure OpenFile where
  metadata : Except Str UInt64
  contents : List UInt8
  seek : ℕ → Except Str Unit

structure ServerState where
  contentType : Str

/-! ### Serving -/

def insertLen (out : HeaderMap) (len : ℕ) : HeaderMap :=
  out.put "content-length".toList (decimal len)

/-- `len` bytes from `start` on. -/
def rangedBody (file : OpenFile) (start len : ℕ) : List UInt8 :=
  match file.seek start with
  | .error _ => []
  | .ok _ => (file.contents.drop start).take len

/-- The headers of every answer with a body. -/
def baseHeaders (state : ServerState) (request : Request) : HeaderMap :=
  let out : HeaderMap := []
  let out := out.put "accept-ranges".toList "bytes".toList
  let out := out.put "content-type".toList state.contentType
  let out := out.put "transfermode.dlna.org".toList "Streaming".toList
  if request.wantsContentFeatures then
    out.put "contentfeatures.dlna.org".toList DLNA_CONTENT_FEATURES
  else out

/-- Handle a GET/HEAD for the media file, honoring an optional `Range` request. -/
def serve (state : ServerState) (opened : Except Str OpenFile) (request : Request) : Response :=
  match opened with
  | .error e => ⟨.notFound, [], asBytes e⟩
  | .ok file =>
    match file.metadata with
    | .error e => ⟨.internalServerError, [], asBytes e⟩
    | .ok length =>
      let total := length.toNat
      let requested := request.range.bind fun v => parseRange v total
      -- A well-formed but unsatisfiable byte range gets 416 (RFC 7233).
      if requested = none ∧ request.range.any fun r => rangeIsUnsatisfiable r total then
        let out : HeaderMap := []
        ⟨.rangeNotSatisfiable,
          out.put "content-range".toList ("bytes */".toList ++ decimal total), []⟩
      else
        let out := baseHeaders state request
        match requested with
        | some (start, stop) =>
          let len := stop - start + 1
          let out := (insertLen out len).put "content-range".toList
            (contentRange start stop total)
          ⟨.partialContent, out,
            if request.method = .head then [] else rangedBody file start len⟩
        | none =>
          ⟨.ok, insertLen out total, if request.method = .head then [] else file.contents⟩

/-! ### With checked arithmetic

The two functions again, with each operation at `u64` that can fail: `none` is the
panic of a debug build. -/

def u64Sub (a b : ℕ) : Option ℕ := if b ≤ a then some (a - b) else none

def u64Add (a b : ℕ) : Option ℕ := if a + b ≤ u64Max then some (a + b) else none

/-- `u64::saturating_sub`. -/
def u64SaturatingSub (a b : ℕ) : ℕ := if b ≤ a then a - b else 0

def parseRangeChecked (value : Str) (total : ℕ) : Option (Option (ℕ × ℕ)) :=
  if total = 0 then some none
  else (u64Sub total 1).map fun last => do
    let spec ← value.dropPrefix? "bytes=".toList
    let spec ← (split ',' spec).head?
    let (s, e) ← splitOnce '-' (trim spec)
    let (start, stop) ←
      if s = [] then do
        let n ← parseUnsigned u64Max e
        if n = 0 then none else some (u64SaturatingSub total n, last)
      else do
        let start ← parseUnsigned u64Max s
        let stop ← if e = [] then some last else (parseUnsigned u64Max e).map fun n => min n last
        some (start, stop)
    if stop < start ∨ last < start then none else some (start, stop)

def serveChecked (state : ServerState) (opened : Except Str OpenFile) (request : Request) :
    Option Response :=
  match opened with
  | .error e => some ⟨.notFound, [], asBytes e⟩
  | .ok file =>
    match file.metadata with
    | .error e => some ⟨.internalServerError, [], asBytes e⟩
    | .ok length => do
      let total := length.toNat
      let requested ← (request.range.map fun v => parseRangeChecked v total).getD (some none)
      if requested = none ∧ request.range.any fun r => rangeIsUnsatisfiable r total then
        let out : HeaderMap := []
        some ⟨.rangeNotSatisfiable,
          out.put "content-range".toList ("bytes */".toList ++ decimal total), []⟩
      else
        let out := baseHeaders state request
        match requested with
        | some (start, stop) => do
          let len ← u64Add (← u64Sub stop start) 1
          let out := (insertLen out len).put "content-range".toList
            (contentRange start stop total)
          some ⟨.partialContent, out,
            if request.method = .head then [] else rangedBody file start len⟩
        | none =>
          some ⟨.ok, insertLen out total, if request.method = .head then [] else file.contents⟩

end HorizonCast
