import HorizonCast.Proofs.Offers
import HorizonCast.Spec.Cli

/-! The casts of the window and of the harness offer a renderer nothing that is not there:
each start is followed from call to call, with what it knows of the server it runs. -/

namespace HorizonCast.Casting

open Routine Text

/-! ### The starts -/

/-- A renderer is told to load only what is offered with the server that runs. -/
def offerRules (offers : Hosting → Loaded → Prop) : Discipline Reply Hosting where
  allows hosting o :=
    match o with
    | .sendSoapAction _ .setAvTransportUri body =>
      ∃ loaded, load body = some loaded ∧ offers hosting loaded
    | _ => True
  after := Hosting.after

section Starts

variable {offers : Hosting → Loaded → Prop}

def Anyhow {α : Type} (_ : α) (_ : Hosting) : Prop := True

/-- The server that was started is the one that runs. -/
def Hosts (localIp : IpAddr) (kind ext : Str) (result : Except Str Server) (hosting : Hosting) :
    Prop :=
  ∀ server, result = .ok server → ∃ port, hosting = ⟨some localIp, some port, some server.id⟩ ∧
    server.url = serverUrl localIp port kind ext

theorem startServer_offers (kind ext : Str) (localIp : IpAddr) {hosting : Hosting}
    (hlocal : hosting.localIp = some localIp) :
    (startServer kind localIp ext).Follows (offerRules offers) (Hosts localIp kind ext)
      hosting := by
  refine ⟨trivial, fun bound => ?_⟩
  cases bound with
  | error e => exact nofun
  | ok u =>
    refine ⟨trivial, fun addr => ?_⟩
    cases addr with
    | error e => exact nofun
    | ok port =>
      refine ⟨trivial, fun id server hserver => ⟨port, ?_, ?_⟩⟩
      · cases hserver
        obtain ⟨_, _, _⟩ := hosting
        cases hlocal
        rfl
      · cases hserver
        rfl

theorem startMediaServer_offers (media : Str) (localIp : IpAddr) {hosting : Hosting}
    (hlocal : hosting.localIp = some localIp) :
    (startMediaServer media localIp).Follows (offerRules offers)
      (Hosts localIp "media".toList (mediaExt media)) hosting := by
  refine ⟨trivial, fun present => ?_⟩
  cases present with
  | false => exact nofun
  | true => exact startServer_offers "media".toList (mediaExt media) localIp hlocal

theorem startPlayback_offers (controlUrl : Str) {mediaUrl title mime : Str} (hmime : ':' ∉ mime)
    {hosting : Hosting} (hoffers : offers hosting ⟨mediaUrl, title, mime, DLNA_CONTENT_FEATURES⟩) :
    (startPlayback controlUrl mediaUrl title mime).Follows (offerRules offers) Anyhow hosting := by
  refine ⟨⟨_, load_didl hmime (by decide +kernel) title mediaUrl, hoffers⟩, fun set => ?_⟩
  cases set with
  | error e => trivial
  | ok a =>
    refine ⟨trivial, fun play => ?_⟩
    cases play <;> trivial

theorem castFile_offers (controlUrl : Str) (target : IpAddr) {media title : Str}
    (hoffers : ∀ hosting loaded, OffersFile media title hosting loaded → offers hosting loaded)
    (hosting : Hosting) :
    (castFile controlUrl target media title).Follows (offerRules offers) Anyhow hosting := by
  refine ⟨trivial, fun localIp => ?_⟩
  cases localIp with
  | error e => trivial
  | ok localIp =>
    apply (startMediaServer_offers media localIp rfl).bind
    intro result hosting hhosts
    cases result with
    | error e => trivial
    | ok server =>
      obtain ⟨port, rfl, hurl⟩ := hhosts server rfl
      have hoffer := hoffers _ _ (offersFile media title localIp port server.id)
      rw [← hurl] at hoffer
      apply (startPlayback_offers controlUrl (colon_notMem_contentTypeFor media) hoffer).bind
      intro played hosting' _
      cases played with
      | error e => exact ⟨trivial, fun _ => trivial⟩
      | ok u => trivial

theorem castUrl_offers (controlUrl : Str) {url title : Str}
    (hoffers : ∀ hosting, offers hosting (passedOn url title)) (hosting : Hosting) :
    (castUrl controlUrl url title).Follows (offerRules offers) Anyhow hosting := by
  apply (startPlayback_offers controlUrl (colon_notMem_contentTypeFor _) (hoffers hosting)).bind
  intro played hosting' _
  cases played <;> trivial

theorem startLiveMirror_offers (controlUrl : Str) (target : IpAddr) {title : Str}
    (hoffers : ∀ hosting loaded, OffersLive title hosting loaded → offers hosting loaded)
    (hosting : Hosting) :
    (startLiveMirror controlUrl target title).Follows (offerRules offers) Anyhow hosting := by
  refine ⟨trivial, fun localIp => ?_⟩
  cases localIp with
  | error e => trivial
  | ok localIp =>
    apply (startServer_offers "live".toList "ts".toList localIp rfl).bind
    intro result hosting hhosts
    cases result with
    | error e => trivial
    | ok live =>
      obtain ⟨port, rfl, hurl⟩ := hhosts live rfl
      have hoffer := hoffers _ _ (offersLive title localIp port live.id)
      rw [← hurl] at hoffer
      refine ⟨⟨_, load_didl (by decide) (by decide +kernel) title live.url, hoffer⟩, fun set => ?_⟩
      cases set with
      | error e => exact ⟨trivial, fun _ => trivial⟩
      | ok a =>
        refine ⟨trivial, fun play => ?_⟩
        cases play with
        | error e => exact ⟨trivial, fun _ => trivial⟩
        | ok a => trivial

end Starts

/-! ### The window -/

section Window

variable {offers : Hosting → Loaded → Prop}

theorem controlUrl_offers (device : Device) (hosting : Hosting) :
    (controlUrl device).Follows (offerRules offers) Anyhow hosting := by
  rw [controlUrl]
  cases device.dlnaControlUrl with
  | some url => trivial
  | none =>
    cases device.dlnaLocation with
    | none => trivial
    | some location =>
      refine ⟨trivial, fun resolved => ?_⟩
      cases resolved <;> trivial

theorem failed_offers (hosting : Hosting) :
    failed.Follows (offerRules offers) Anyhow hosting := ⟨trivial, fun _ => trivial⟩

theorem startOn_offers (id : Str) {start : Device → Str → Async Active}
    (hstart : ∀ device control hosting,
      (start device control).Follows (offerRules offers) Anyhow hosting) (hosting : Hosting) :
    (startOn id start).Follows (offerRules offers) Anyhow hosting := by
  refine ⟨trivial, fun found => ?_⟩
  cases found with
  | none => exact failed_offers _
  | some device =>
    apply (controlUrl_offers device _).bind
    intro resolved hosting _
    cases resolved with
    | none => exact failed_offers _
    | some control => exact hstart device control hosting

theorem startMedia_offers (id : Str) (source : MediaSource)
    (hstart : ∀ device control hosting,
      (castSource device control source).Follows (offerRules offers) Anyhow hosting)
    (hosting : Hosting) :
    (startMedia id source).Follows (offerRules offers) Anyhow hosting := by
  apply startOn_offers
  intro device control hosting
  apply (hstart device control hosting).bind
  intro result hosting _
  cases result with
  | error e => exact failed_offers _
  | ok session => trivial

theorem startMirror_offers (id : Str) (fps bitrateKbps : ℕ)
    (hoffers : ∀ hosting loaded, OffersLive "HorizonCast".toList hosting loaded →
      offers hosting loaded) (hosting : Hosting) :
    (startMirror id fps bitrateKbps).Follows (offerRules offers) Anyhow hosting := by
  apply startOn_offers
  intro device control hosting
  apply (startLiveMirror_offers control device.address hoffers hosting).bind
  intro result hosting _
  cases result with
  | error e => exact failed_offers _
  | ok session => exact ⟨trivial, fun _ => ⟨trivial, fun _ => trivial⟩⟩

end Window

theorem startCmd_offers (cmd : Cmd) (hosting : Hosting) :
    (startCmd cmd).Follows (offerRules (Offers cmd)) Anyhow hosting := by
  cases cmd with
  | castFile id path =>
    exact startMedia_offers id _ (fun device control => castFile_offers control device.address
      fun _ _ hoffer => hoffer) hosting
  | castUrl id url =>
    exact startMedia_offers id _ (fun device control => castUrl_offers control
      fun _ => ⟨device.name, rfl⟩) hosting
  | mirror id fps bitrateKbps =>
    exact startMirror_offers id fps bitrateKbps (fun _ _ hoffer => hoffer) hosting
  | stop => trivial

/-- What the calls of a log have come to. -/
def hostingOf (log : List (Σ o, Reply o)) : Hosting :=
  log.foldl (fun hosting e => hosting.after e.1 e.2) {}

/-- Whatever its calls return, the start of a cast tells a renderer to load only what is
offered to it at that moment: the link of the user, or the URL of the server that runs
then, with the title, the type and the features of what it answers there. -/
theorem start_offers_served (cmd : Cmd) {active : Active} {log earlier later : List (Σ o, Reply o)}
    {url body : Str} {reply : Except Str Str} (h : (startCmd cmd).Returns active log)
    (hlog : log = earlier ++ ⟨.sendSoapAction url .setAvTransportUri body, reply⟩ :: later) :
    ∃ loaded, load body = some loaded ∧ Offers cmd (hostingOf earlier) loaded :=
  (startCmd_offers cmd {}).allowed_after h hlog

/-- An environment in which every device is found. -/
def allFound : Answers
  | .findDevice id => some (sampleDevice id)
  | o => allSucceed o

theorem start_offers_served_mirror : ∃ body loaded, load body = some loaded ∧
    OffersLive "HorizonCast".toList
      ⟨some (sampleDevice "tv".toList).address, some 8200, some 0⟩ loaded := by
  obtain ⟨loaded, hload, hoffer⟩ := start_offers_served (.mirror "tv".toList 60 16000)
    (returns_answered allFound _) (show _ = [_, _, _, _, _] ++ _ :: _ from rfl)
  exact ⟨_, loaded, hload, hoffer⟩

end HorizonCast.Casting

namespace HorizonCast.Cli

open Casting Routine Text

/-- What a renderer may be told to load on a command of the harness. -/
def Command.Offers : Command → Hosting → Loaded → Prop
  | .mirror _ _ _ => OffersLive "HorizonCast".toList
  | .cast _ media =>
    if startsWith media "http://".toList || startsWith media "https://".toList then
      fun _ loaded => loaded = passedOn media (mediaTitle media)
    else OffersFile media (mediaTitle media)

/-! ### The harness -/

def Hosting.after (hosting : Hosting) : (o : Op) → Reply o → Hosting
  | .call o, reply => Casting.Hosting.after hosting o reply
  | _, _ => hosting

def offerRules (offers : Hosting → Loaded → Prop) : Discipline Reply Hosting where
  allows hosting o :=
    match o with
    | .call o => (Casting.offerRules offers).allows hosting o
    | _ => True
  after := Hosting.after

section Commands

variable {offers : Hosting → Loaded → Prop}

theorem await_offers {α : Type} {p : Casting.Async α} {post : α → Hosting → Prop}
    {hosting : Hosting} (h : p.Follows (Casting.offerRules offers) post hosting) :
    (await p).Follows (offerRules offers) post hosting := by
  apply h.lift
  · intro hosting o ho
    exact ho
  · intro hosting o reply
    rfl

/-- A call that tells no renderer to load anything. -/
theorem follows_unconcerned {α : Type} {o : Op} {next : Reply o → Async α} {hosting : Hosting}
    (ho : (offerRules offers).allows hosting o)
    (h : ∀ reply hosting, (next reply).Follows (offerRules offers) Anyhow hosting) :
    (perform o >>= next).Follows (offerRules offers) Anyhow hosting :=
  ⟨ho, fun reply => h reply _⟩

theorem resolveDlnaControlUrl_offers (dev : Device) (hosting : Hosting) :
    (resolveDlnaControlUrl dev).Follows (offerRules offers) Anyhow hosting := by
  rw [resolveDlnaControlUrl]
  cases dev.dlnaControlUrl with
  | some url => trivial
  | none =>
    cases dev.dlnaLocation with
    | none => trivial
    | some location =>
      refine ⟨trivial, fun resolved => ?_⟩
      cases resolved <;> trivial

theorem eprintln_offers (line : Str) (hosting : Hosting) :
    (eprintln line).Follows (offerRules offers) Anyhow hosting := ⟨trivial, fun _ => trivial⟩

theorem reportStop_offers (result : Except Str Unit) (hosting : Hosting) :
    (reportStop result).Follows (offerRules offers) Anyhow hosting := by
  cases result with
  | ok u => trivial
  | error e => exact eprintln_offers _ hosting

theorem mediaStop_offers (session : MediaCastSession) (hosting : Hosting) :
    session.stop.Follows (Casting.offerRules offers) Anyhow hosting := by
  refine ⟨trivial, fun result => ?_⟩
  cases session.server with
  | none => trivial
  | some server => exact ⟨trivial, fun _ => trivial⟩

theorem liveStop_offers (session : Casting.LiveMirrorSession) (hosting : Hosting) :
    session.stop.Follows (Casting.offerRules offers) Anyhow hosting :=
  ⟨trivial, fun _ => ⟨trivial, fun _ => trivial⟩⟩

theorem startCast_offers {isUrl : Bool} (dev : Device) (controlUrl : Str) {media title : Str}
    (hfile : isUrl = false → ∀ hosting loaded, OffersFile media title hosting loaded →
      offers hosting loaded)
    (hurl : isUrl = true → ∀ hosting, offers hosting (passedOn media title)) (hosting : Hosting) :
    (startCast isUrl dev controlUrl media title).Follows (offerRules offers) Anyhow hosting := by
  cases isUrl with
  | true => exact await_offers (castUrl_offers controlUrl (hurl rfl) hosting)
  | false => exact await_offers (castFile_offers controlUrl dev.address (hfile rfl) hosting)

theorem runCast_offers (device media : Str) (hosting : Hosting) :
    (runCast device media).Follows (offerRules (Command.cast device media).Offers) Anyhow
      hosting := by
  unfold runCast
  extract_lets isUrl
  have hfile : isUrl = false → ∀ hosting loaded,
      OffersFile media (mediaTitle media) hosting loaded →
        (Command.cast device media).Offers hosting loaded := by
    intro hlocal hosting loaded hoffer
    rw [Command.Offers, if_neg (Bool.eq_false_iff.mp hlocal)]
    exact hoffer
  have hurl : isUrl = true → ∀ hosting,
      (Command.cast device media).Offers hosting (passedOn media (mediaTitle media)) := by
    intro hremote hosting
    rw [Command.Offers, if_pos hremote]
  have hpresent : (mediaPresent isUrl media).Follows
      (offerRules (Command.cast device media).Offers) Anyhow hosting := by
    cases isUrl with
    | true => trivial
    | false => exact ⟨trivial, fun _ => trivial⟩
  apply hpresent.bind
  intro present hosting _
  cases present with
  | false => exact eprintln_offers _ hosting
  | true =>
    refine follows_unconcerned trivial fun _ _ => follows_unconcerned trivial fun devices _ => ?_
    cases findDevice devices device with
    | none => exact eprintln_offers _ _
    | some dev =>
      apply (resolveDlnaControlUrl_offers dev _).bind
      intro resolved hosting _
      cases resolved with
      | none => exact eprintln_offers _ hosting
      | some controlUrl =>
        apply (startCast_offers dev controlUrl hfile hurl hosting).bind
        intro started hosting _
        cases started with
        | error e => exact eprintln_offers _ hosting
        | ok session =>
          refine follows_unconcerned trivial fun _ _ => follows_unconcerned trivial fun _ _ =>
            follows_unconcerned trivial fun _ _ => follows_unconcerned trivial fun _ hosting => ?_
          apply (await_offers (mediaStop_offers session _)).bind
          intro result hosting _
          exact reportStop_offers result hosting

theorem runMirror_offers (device : Str) (fps bitrateKbps : ℕ) (hosting : Hosting) :
    (runMirror device fps bitrateKbps).Follows
      (offerRules (Command.mirror device fps bitrateKbps).Offers) Anyhow hosting := by
  refine follows_unconcerned trivial fun _ _ => follows_unconcerned trivial fun devices _ => ?_
  cases findDevice devices device with
  | none => exact eprintln_offers _ _
  | some dev =>
    apply (resolveDlnaControlUrl_offers dev _).bind
    intro resolved hosting _
    cases resolved with
    | none => exact eprintln_offers _ hosting
    | some controlUrl =>
      apply (await_offers (startLiveMirror_offers controlUrl dev.address
        (fun _ _ hoffer => hoffer) hosting)).bind
      intro started hosting _
      cases started with
      | error e => exact eprintln_offers _ hosting
      | ok session =>
        refine follows_unconcerned trivial fun _ _ => follows_unconcerned trivial fun _ _ =>
          follows_unconcerned trivial fun captureEnded hosting => ?_
        have hend : (reportEnd captureEnded).Follows
            (offerRules (Command.mirror device fps bitrateKbps).Offers) Anyhow hosting := by
          cases captureEnded with
          | true => exact eprintln_offers _ hosting
          | false => trivial
        apply hend.bind
        intro _ hosting _
        refine follows_unconcerned trivial fun _ _ =>
          follows_unconcerned trivial fun _ hosting => ?_
        apply (await_offers (liveStop_offers session _)).bind
        intro result hosting _
        apply (reportStop_offers result hosting).bind
        intro _ hosting _
        exact ⟨trivial, fun _ => trivial⟩

end Commands

def hostingOf (log : Log) : Hosting :=
  log.foldl (fun hosting e => Hosting.after hosting e.1 e.2) {}

/-- Whatever its calls return, a command of the harness tells a renderer to load only what is
offered to it at that moment. -/
theorem command_offers_served (command : Command) {log earlier later : Log} {url body : Str}
    {reply : Except Str Str} (h : command.run.Returns () log)
    (hlog : log = earlier ++
      ⟨.call (.sendSoapAction url .setAvTransportUri body), reply⟩ :: later) :
    ∃ loaded, load body = some loaded ∧ command.Offers (hostingOf earlier) loaded := by
  have hfollows : command.run.Follows (offerRules command.Offers) Anyhow {} := by
    cases command with
    | mirror device fps bitrateKbps => exact runMirror_offers device fps bitrateKbps {}
    | cast device media => exact runCast_offers device media {}
  exact hfollows.allowed_after h hlog

theorem command_offers_served_file : ∃ body loaded, load body = some loaded ∧
    OffersFile "/b.mp4".toList (mediaTitle "/b.mp4".toList)
      ⟨some (sampleDevice "tv".toList).address, some 8200, some 0⟩ loaded := by
  let command := Command.cast "192.168.1.9".toList "/b.mp4".toList
  obtain ⟨loaded, hload, hoffer⟩ := command_offers_served command
    (returns_answered Cli.allSucceed _) (show _ = [_, _, _, _, _, _, _, _] ++ _ :: _ from rfl)
  exact ⟨_, loaded, hload, hoffer⟩

end HorizonCast.Cli
