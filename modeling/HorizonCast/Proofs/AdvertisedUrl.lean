import HorizonCast.Lib.Uri
import HorizonCast.Proofs.AddressText
import HorizonCast.Spec.Casting

/-! When the URL that a server advertises is a URI that names the server: it is put together
from an address of either family and an extension, both as they are. -/

namespace HorizonCast.Casting

open Text Uri IpAddr

/-- The host of an address in a URI: an IPv6 address stands in brackets. -/
def hostText : IpAddr → Str
  | .v4 bits => toText (.v4 bits)
  | .v6 bits => '[' :: toText (.v6 bits) ++ [']']

/-- The URL is an http URI of the address and the port, its path ends in the extension, and
it has no query and no fragment. -/
structure Names (url : Str) (ip : IpAddr) (port : UInt16) (ext : Str) : Prop where
  scheme : (parse url).scheme = some "http".toList
  authority : ∃ authority digits, (parse url).authority = some authority ∧
    hostPort authority = some (hostText ip, digits) ∧
    parseUnsigned 65535 digits = some port.toNat
  path : validPath (parse url).path = true
  ending : '.' :: ext <:+ (parse url).path
  query : (parse url).query = none
  fragment : (parse url).fragment = none

section Url

variable (localIp : IpAddr) (port : UInt16)

def authorityText : Str := localIp.toText ++ ':' :: decimal port.toNat

theorem notMem_authorityText {c : Char} (hdigit : ∀ d < 16, d.digitChar ≠ c) (hdot : c ≠ '.')
    (hcolon : c ≠ ':') : c ∉ authorityText localIp port := by
  simp [authorityText, notMem_toText hdigit hdot hcolon, notMem_decimal hdigit, hcolon]

theorem parse_serverUrl (kind ext : Str) :
    let file := kind ++ '.' :: ext
    parse (serverUrl localIp port kind ext) = {
      scheme := some "http".toList
      authority := some (authorityText localIp port)
      path := '/' :: upTo ['?', '#'] file
      query := (takeMarked '?' ['#'] (since ['?', '#'] file)).1
      fragment :=
        (takeMarked '#' [] (takeMarked '?' ['#'] (since ['?', '#'] file)).2).1 } := by
  intro file
  have hurl : serverUrl localIp port kind ext = "http".toList ++ ':' :: '/' :: '/' ::
      (authorityText localIp port ++ '/' :: file) := by
    have hfront : "http://".toList = "http".toList ++ [':', '/', '/'] := by decide
    unfold serverUrl authorityText file
    rw [hfront]
    simp only [List.append_assoc, List.cons_append, List.nil_append]
  have hscheme : ∀ c ∈ [':', '/', '?', '#'], c ∉ "http".toList := by
    intro c hc
    simp only [List.mem_cons, List.not_mem_nil, or_false] at hc
    rcases hc with rfl | rfl | rfl | rfl
    all_goals decide
  have hmarks : ∀ c ∈ ['/', '?', '#'], c ∉ authorityText localIp port := by
    intro c hc
    simp only [List.mem_cons, List.not_mem_nil, or_false] at hc
    rcases hc with rfl | rfl | rfl
    all_goals exact notMem_authorityText localIp port (by decide) (by decide) (by decide)
  rw [hurl, parse_absolute hscheme (by decide) hmarks]

/-- An IPv4 address is read back from the authority, an IPv6 address is not. -/
theorem hostPort_authorityText :
    (∃ digits, hostPort (authorityText localIp port) = some (hostText localIp, digits) ∧
      parseUnsigned 65535 digits = some port.toNat) ↔ ∃ bits, localIp = .v4 bits := by
  obtain ⟨hdigits, hnumeral⟩ := decimal_digits port.toNat
  cases localIp with
  | v4 bits =>
    refine iff_of_true ⟨decimal port.toNat, ?_, ?_⟩ ⟨bits, rfl⟩
    · exact hostPort_of_notMem (notMem_toText (by decide) (by decide) (by decide) _)
        (colon_notMem_showV4 bits) hdigits.2
    · have hport := port.toNat_lt
      rw [parseUnsigned_digits hdigits, hnumeral, if_pos (by omega)]
  | v6 bits =>
    refine iff_of_false ?_ (by simp)
    rintro ⟨digits, hhost, -⟩
    have hhead := hostPort_bracket hhost rfl
    exact notMem_authorityText (.v6 bits) port (by decide) (by decide) (by decide)
      (List.mem_of_head? hhead)

/-- The name of the server in its URL needs no quoting. -/
def Plain (kind : Str) : Prop := kind.all fun c => c ≠ '%' && (isPchar c || c == '/')

instance (kind : Str) : Decidable (Plain kind) := inferInstanceAs (Decidable (_ = true))

theorem validPath_serverUrl {kind : Str} (hkind : Plain kind) (ext : Str) :
    validPath ('/' :: (kind ++ '.' :: ext)) = validPath ext := by
  rw [validPath_cons (by decide), validPath_plain hkind, validPath_cons (by decide)]
  rfl

theorem names_serverUrl_iff {kind : Str} (hkind : Plain kind) (ext : Str) :
    Names (serverUrl localIp port kind ext) localIp port ext ↔
      (∃ bits, localIp = .v4 bits) ∧ validPath ext = true := by
  have hparse := parse_serverUrl localIp port kind ext
  dsimp only at hparse
  have hhost := hostPort_authorityText localIp port
  have hvalid := validPath_serverUrl hkind ext
  -- the path goes on to the end when nothing in it starts a query or a fragment
  have hwhole : (∀ c ∈ ['?', '#'], c ∉ kind ++ '.' :: ext) →
      upTo ['?', '#'] (kind ++ '.' :: ext) = kind ++ '.' :: ext := by
    intro hmarks
    refine List.takeWhile_eq_self_iff.mpr fun c hc => ?_
    have hout : c ∉ ['?', '#'] := fun hmem => hmarks c hmem hc
    simpa using hout
  constructor
  · rintro ⟨-, ⟨authority, digits, hauthority, hread⟩, hpath, -, hquery, hfragment⟩
    rw [hparse] at hauthority hpath hquery hfragment
    cases hauthority
    have hmarks := no_query_fragment_iff.mp ⟨hquery, hfragment⟩
    rw [hwhole hmarks, hvalid] at hpath
    exact ⟨hhost.mp ⟨digits, hread⟩, hpath⟩
  · rintro ⟨hv4, hext⟩
    obtain ⟨digits, hread⟩ := hhost.mpr hv4
    rw [← hvalid] at hext
    have hmarks : ∀ c ∈ ['?', '#'], c ∉ kind ++ '.' :: ext := fun c hc hmem =>
      notMem_of_validPath hext c hc (List.mem_cons_of_mem _ hmem)
    obtain ⟨hquery, hfragment⟩ := no_query_fragment_iff.mpr hmarks
    rw [hwhole hmarks] at hparse
    refine ⟨?_, ⟨_, digits, ?_, hread⟩, ?_, ?_, ?_, ?_⟩
    all_goals rw [hparse]
    · exact hext
    · exact ⟨'/' :: kind, rfl⟩
    · exact hquery
    · exact hfragment

end Url

/-! ### The starts of the servers -/

/-- A server that was started has the URL of the port that it was bound to. -/
theorem startServer_url {kind ext : Str} {localIp : IpAddr} {server : Server} {port : UInt16}
    {log : List (Σ o, Reply o)} (h : (startServer kind localIp ext).Returns (.ok server) log)
    (hport : ⟨.localAddr, .ok port⟩ ∈ log) : server.url = serverUrl localIp port kind ext := by
  obtain ⟨bound, _, rest, rfl, hbound, h⟩ := Routine.returns_bind.mp h
  rw [Routine.returns_perform.mp hbound] at hport
  cases bound with
  | error e => cases h.1
  | ok u =>
    obtain ⟨addr, _, rest, rfl, haddr, h⟩ := Routine.returns_bind.mp h
    rw [Routine.returns_perform.mp haddr] at hport
    cases addr with
    | error e => cases h.1
    | ok bound =>
      obtain ⟨id, _, rest, rfl, hid, h⟩ := Routine.returns_bind.mp h
      rw [Routine.returns_perform.mp hid, h.2] at hport
      have hsame : port = bound := by
        simp only [List.cons_append, List.nil_append, List.mem_cons, List.not_mem_nil,
          or_false] at hport
        rcases hport with heq | heq | heq
        · cases heq
        · cases heq
          rfl
        · cases heq
      rw [hsame]
      cases h.1
      rfl

/-- The file extension in the URL of a media file. -/
def mediaExt (media : Str) : Str := ((extension media).getD "bin".toList).map Char.toLower

theorem startMediaServer_url {media : Str} {localIp : IpAddr} {server : Server} {port : UInt16}
    {log : List (Σ o, Reply o)} (h : (startMediaServer media localIp).Returns (.ok server) log)
    (hport : ⟨.localAddr, .ok port⟩ ∈ log) :
    server.url = serverUrl localIp port "media".toList (mediaExt media) := by
  obtain ⟨present, _, rest, rfl, hpresent, h⟩ := Routine.returns_bind.mp h
  rw [Routine.returns_perform.mp hpresent] at hport
  cases present with
  | false => cases h.1
  | true =>
    rcases List.mem_append.mp hport with hfirst | hrest
    · cases List.mem_singleton.mp hfirst
    · exact startServer_url h hrest

/-- The URL of a started media server or live stream names the server just when the local
address is IPv4 and the extension needs no quoting. -/
theorem advertised_url_iff (localIp : IpAddr) (port : UInt16) :
    (∀ (media : Str) (server : Server) (log : List (Σ o, Reply o)),
      (startMediaServer media localIp).Returns (.ok server) log → ⟨.localAddr, .ok port⟩ ∈ log →
      (Names server.url localIp port (mediaExt media) ↔
        (∃ bits, localIp = .v4 bits) ∧ validPath (mediaExt media) = true)) ∧
    ∀ (ext : Str) (server : Server) (log : List (Σ o, Reply o)),
      (startLiveStream localIp ext).Returns (.ok server) log → ⟨.localAddr, .ok port⟩ ∈ log →
      (Names server.url localIp port ext ↔
        (∃ bits, localIp = .v4 bits) ∧ validPath ext = true) := by
  constructor
  · intro media server log h hport
    rw [startMediaServer_url h hport]
    exact names_serverUrl_iff localIp port (by decide) _
  · intro ext server log h hport
    rw [startServer_url h hport]
    exact names_serverUrl_iff localIp port (by decide) ext

/-- The start of a media server at port 8000. -/
theorem start_returns (media : Str) (localIp : IpAddr) :
    (startMediaServer media localIp).Returns
      (.ok ⟨serverUrl localIp 8000 "media".toList (mediaExt media), 0⟩)
      [⟨.tryExists media, true⟩, ⟨.bind, .ok ()⟩, ⟨.localAddr, .ok 8000⟩,
        ⟨.spawnServer, (0 : ℕ)⟩] :=
  ⟨true, _, rfl, .ok (), _, rfl, .ok 8000, _, rfl, (0 : ℕ), _, rfl, rfl, rfl⟩

theorem advertised_url_film :
    Names (serverUrl (.v4 0x7F000001) 8000 "media".toList (mediaExt "/films/a.MP4".toList))
      (.v4 0x7F000001) 8000 "mp4".toList :=
  ((advertised_url_iff (.v4 0x7F000001) 8000).1 _ _ _
    (start_returns "/films/a.MP4".toList (.v4 0x7F000001)) (by simp)).mpr ⟨⟨_, rfl⟩, by decide⟩

/-- A film is served at `fe80::1`, and at an IPv4 address under a name with a hash sign in its
extension. -/
theorem url_misread :
    let linkLocal : IpAddr := .v6 ⟨0xFE800000000000000000000000000001, by decide⟩
    (∃ server log, (startMediaServer "/films/a.mp4".toList linkLocal).Returns (.ok server) log ∧
      ⟨.localAddr, .ok 8000⟩ ∈ log ∧ server.url = "http://fe80::1:8000/media.mp4".toList ∧
      ¬ Names server.url linkLocal 8000 "mp4".toList) ∧
    ∃ server log, (startMediaServer "/films/a.4#2".toList (.v4 0x7F000001)).Returns (.ok server)
        log ∧ ⟨.localAddr, .ok 8000⟩ ∈ log ∧
      server.url = "http://127.0.0.1:8000/media.4#2".toList ∧
      ¬ Names server.url (.v4 0x7F000001) 8000 "4#2".toList := by
  refine ⟨⟨_, _, start_returns _ _, by simp, by decide +kernel, ?_⟩,
    ⟨_, _, start_returns _ _, by simp, by decide +kernel, ?_⟩⟩
  · have hext : mediaExt "/films/a.mp4".toList = "mp4".toList := by decide +kernel
    rw [hext, names_serverUrl_iff _ _ (by decide)]
    rintro ⟨⟨bits, heq⟩, -⟩
    cases heq
  · have hext : mediaExt "/films/a.4#2".toList = "4#2".toList := by decide +kernel
    rw [hext, names_serverUrl_iff _ _ (by decide)]
    rintro ⟨-, hvalid⟩
    exact absurd hvalid (by decide)

end HorizonCast.Casting
