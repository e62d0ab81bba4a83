import HorizonCast.Proofs.AdvertisedUrl
import HorizonCast.Proofs.Ranges
import HorizonCast.Proofs.Soap
import HorizonCast.Spec.LiveClients

/-! What a renderer is told to load, as it reads it from a `SetAVTransportURI`, is what it
finds there. -/

namespace HorizonCast.Casting

open Text Xml

structure Loaded where
  uri : Str
  title : Str
  mime : Str
  features : Str
  deriving DecidableEq, Repr

/-- The MIME type and the features of an `http-get:*:mime:features`. -/
def readInfo (info : Str) : Option (Str × Str) :=
  match split ':' info with
  | [_, _, mime, features] => some (mime, features)
  | _ => none

/-- The URI stands in the action and again in its metadata. -/
def load (body : Str) : Option Loaded := do
  let uri ← (between "<CurrentURI>".toList "</CurrentURI>".toList body).bind unescape
  let didl ← (between "<CurrentURIMetaData>".toList "</CurrentURIMetaData>".toList body).bind
    unescape
  let title ← (dcTitle didl).bind unescape
  let res ← (resText didl).bind unescape
  let info ← (resProtocolInfo didl).bind unescape
  let (mime, features) ← readInfo info
  if res = uri then some { uri, title, mime, features } else none

/-! ### What is there -/

/-- What a start has come to know of the server it runs: the local address, the port and
the serve task. -/
structure Hosting where
  localIp : Option IpAddr := none
  port : Option UInt16 := none
  server : Option ℕ := none

def Hosting.after (hosting : Hosting) : (o : Op) → Reply o → Hosting
  | .localIpFor _, .ok localIp => { hosting with localIp := some localIp }
  | .localAddr, .ok port => { hosting with port := some port }
  | .spawnServer, id => { hosting with server := some id }
  | .stopServer id, _ =>
    if hosting.server = some id then { hosting with server := none } else hosting
  | _, _ => hosting

/-- A file is offered at the server that runs, and every answer with a body has the type and
the features that the renderer was told. -/
structure OffersFile (media title : Str) (hosting : Hosting) (loaded : Loaded) : Prop where
  running : ∃ localIp port id, hosting = ⟨some localIp, some port, some id⟩ ∧
    loaded.uri = serverUrl localIp port "media".toList (mediaExt media)
  title : loaded.title = title
  answers : ∀ opened request, let resp := serve ⟨contentTypeFor media⟩ opened request
    resp.status = .ok ∨ resp.status = .partialContent →
      resp.header "content-type".toList = some loaded.mime ∧
      resp.header "contentfeatures.dlna.org".toList =
        if request.wantsContentFeatures then some loaded.features else none

/-- A live stream is offered. -/
structure OffersLive (title : Str) (hosting : Hosting) (loaded : Loaded) : Prop where
  running : ∃ localIp port id, hosting = ⟨some localIp, some port, some id⟩ ∧
    loaded.uri = serverUrl localIp port "live".toList "ts".toList
  title : loaded.title = title
  answers : ∀ wantsContentFeatures,
    let headers := LiveClients.headers "video/mp2t".toList wantsContentFeatures
    headers.lookup "content-type".toList = some loaded.mime ∧
      headers.lookup "contentfeatures.dlna.org".toList =
        if wantsContentFeatures then some loaded.features else none

/-- A link is passed on. -/
def passedOn (url title : Str) : Loaded := ⟨url, title, mimeForUrl url, DLNA_CONTENT_FEATURES⟩

/-- What a renderer may be told to load on a command of the window. -/
def Offers : Cmd → Hosting → Loaded → Prop
  | .castFile _ path => OffersFile path ((fileStem path).getD "HorizonCast".toList)
  | .castUrl _ url => fun _ loaded => ∃ title, loaded = passedOn url title
  | .mirror _ _ _ => OffersLive "HorizonCast".toList
  | .stop => fun _ _ => False

/-! ### What is read -/

theorem colon_notMem_contentTypeFor (path : Str) : ':' ∉ contentTypeFor path := by
  have htable : ∀ e ∈ CONTENT_TYPES, ':' ∉ e.2 := by decide +kernel
  have hother : ':' ∉ "application/octet-stream".toList := by decide
  unfold contentTypeFor
  cases (extension path).map fun ext => ext.map Char.toLower with
  | none => exact hother
  | some ext =>
    dsimp only
    cases hlookup : CONTENT_TYPES.lookup ext with
    | none => exact hother
    | some mime =>
      obtain ⟨l, l', heq, -⟩ := List.lookup_eq_some_iff.mp hlookup
      exact htable (ext, mime) (by rw [heq]; simp)

theorem split_of_notMem {sep : Char} {s : Str} (h : sep ∉ s) : split sep s = [s] := by
  induction s with
  | nil => rfl
  | cons c s ih =>
    obtain ⟨hc, hs⟩ := not_or.mp (List.mem_cons.not.mp h)
    rw [split, if_neg (Ne.symm hc), ih hs]

theorem readInfo_fields {protocol network mime features : Str} (hprotocol : ':' ∉ protocol)
    (hnetwork : ':' ∉ network) (hmime : ':' ∉ mime) (hfeatures : ':' ∉ features) :
    readInfo (protocol ++ ':' :: (network ++ ':' :: (mime ++ ':' :: features))) =
      some (mime, features) := by
  unfold readInfo
  rw [split_append_sep, split_append_sep, split_append_sep, split_of_notMem hprotocol,
    split_of_notMem hnetwork, split_of_notMem hmime, split_of_notMem hfeatures]
  rfl

theorem readInfo_httpGetInfo {mime features : Str} (hmime : ':' ∉ mime)
    (hfeatures : ':' ∉ features) :
    readInfo (httpGetInfo mime features) = some (mime, features) := by
  have hprotocol : ':' ∉ "http-get".toList := by decide
  have hnetwork : ':' ∉ "*".toList := by decide
  have hfields := readInfo_fields hprotocol hnetwork hmime hfeatures
  have hinfo : httpGetInfo mime features =
      "http-get".toList ++ ':' :: ("*".toList ++ ':' :: (mime ++ ':' :: features)) := by
    unfold httpGetInfo
    simp
  rw [hinfo, hfields]

/-- The renderer reads what was put in. -/
theorem load_didl {mime features : Str} (hmime : ':' ∉ mime) (hfeatures : ':' ∉ features)
    (title uri : Str) :
    load (buildSetAvTransportUri uri (didlWithProtocolInfo title uri (httpGetInfo mime features))) =
      some ⟨uri, title, mime, features⟩ := by
  have h := lossless_didl title uri (httpGetInfo mime features)
  simp only [load, Option.bind_eq_bind, h.currentUri, h.metadata, h.title, h.res, h.protocolInfo,
    Option.bind_some, readInfo_httpGetInfo hmime hfeatures, if_true]

/-! ### What is found -/

theorem lookup_base (state : ServerState) (request : Request) :
    (baseHeaders state request).lookup "content-type".toList = some state.contentType ∧
      (baseHeaders state request).lookup "contentfeatures.dlna.org".toList =
        if request.wantsContentFeatures then some DLNA_CONTENT_FEATURES else none := by
  unfold baseHeaders
  dsimp only
  split_ifs
  · exact ⟨by rw [lookup_put_ne (by decide), lookup_put_ne (by decide), lookup_put_self],
      lookup_put_self _ _ _⟩
  · refine ⟨by rw [lookup_put_ne (by decide), lookup_put_self], ?_⟩
    rw [lookup_put_ne (by decide), lookup_put_ne (by decide), lookup_put_ne (by decide)]
    rfl

/-- Every answer with a body has the headers of all of them. -/
theorem serve_headers {state : ServerState} {opened : Except Str OpenFile} {request : Request}
    (h : (serve state opened request).status = .ok ∨
      (serve state opened request).status = .partialContent) {name : Str}
    (hlength : name ≠ "content-length".toList) (hrange : name ≠ "content-range".toList) :
    (serve state opened request).header name = (baseHeaders state request).lookup name := by
  unfold serve at h ⊢
  cases opened with
  | error e => exact h.elim nofun nofun
  | ok file =>
    cases hmeta : file.metadata with
    | error e =>
      simp only [hmeta] at h
      exact h.elim nofun nofun
    | ok length =>
      simp only [hmeta] at h ⊢
      by_cases hrefused : (request.range.bind fun v => parseRange v length.toNat) = none ∧
          (request.range.any fun r => rangeIsUnsatisfiable r length.toNat) = true
      · rw [if_pos hrefused] at h
        exact h.elim nofun nofun
      · rw [if_neg hrefused]
        cases request.range.bind fun v => parseRange v length.toNat with
        | none => exact lookup_put_ne hlength _ _
        | some r => exact (lookup_put_ne hrange _ _).trans (lookup_put_ne hlength _ _)

theorem offersFile (media title : Str) (localIp : IpAddr) (port : UInt16) (id : ℕ) :
    OffersFile media title ⟨some localIp, some port, some id⟩
      ⟨serverUrl localIp port "media".toList (mediaExt media), title, contentTypeFor media,
        DLNA_CONTENT_FEATURES⟩ where
  running := ⟨localIp, port, id, rfl, rfl⟩
  title := rfl
  answers opened request := by
    intro resp h
    obtain ⟨htype, hfeatures⟩ := lookup_base ⟨contentTypeFor media⟩ request
    exact ⟨(serve_headers h (by decide) (by decide)).trans htype,
      (serve_headers h (by decide) (by decide)).trans hfeatures⟩

theorem offersLive (title : Str) (localIp : IpAddr) (port : UInt16) (id : ℕ) :
    OffersLive title ⟨some localIp, some port, some id⟩
      ⟨serverUrl localIp port "live".toList "ts".toList, title, "video/mp2t".toList,
        DLNA_LIVE_FEATURES⟩ where
  running := ⟨localIp, port, id, rfl, rfl⟩
  title := rfl
  answers wants := by
    unfold LiveClients.headers
    dsimp only
    split_ifs
    · exact ⟨by rw [lookup_put_ne (by decide), lookup_put_ne (by decide),
        lookup_put_ne (by decide), lookup_put_self], lookup_put_self _ _ _⟩
    · refine ⟨by rw [lookup_put_ne (by decide), lookup_put_ne (by decide), lookup_put_self], ?_⟩
      rw [lookup_put_ne (by decide), lookup_put_ne (by decide), lookup_put_ne (by decide)]
      rfl

end HorizonCast.Casting
