import HorizonCast.Proofs.SessionStages
import HorizonCast.Spec.Cli

/-! The harness leaves nothing behind, and talks to nobody but the device it was
told to cast to, whatever its calls return. -/

namespace HorizonCast.Cli

open Casting Routine Text

/-! ### The protocol -/

def stageRules : Discipline Reply Stage := .ofProtocol Op.event Stage.next

/-- What the other crates do by themselves. -/
theorem await_stages {α : Type} {p : Casting.Async α} {post : α → Stage → Prop} {stage : Stage}
    (h : p.Follows ownRules post stage) : (await p).Follows stageRules post stage := by
  apply h.lift
  · intro t o ho
    exact ho.2
  · intro t o reply
    rfl

/-- A call that shows nothing changes no stage. -/
theorem follows_silent {α : Type} {o : Op} {next : Reply o → Async α} {post : α → Stage → Prop}
    {stage : Stage} (ho : ∀ reply, o.event reply = none)
    (h : ∀ reply, (next reply).Follows stageRules post stage) :
    (perform o >>= next).Follows stageRules post stage := by
  rw [perform, perform_bind]
  refine ⟨fun reply e he => ?_, fun reply => ?_⟩
  · rw [ho reply] at he
    cases he
  · have hafter : stageRules.after stage o reply = stage := by
      simp [stageRules, Discipline.ofProtocol, ho reply]
    rw [hafter]
    exact h reply

/-- A line is printed at the end. -/
theorem eprintln_stages (line : Str) : (eprintln line).Follows stageRules Over .idle :=
  ⟨nofun, fun _ => rfl⟩

theorem resolveDlnaControlUrl_stages (dev : Device) :
    (resolveDlnaControlUrl dev).Follows stageRules Over .idle := by
  rw [resolveDlnaControlUrl]
  cases dev.dlnaControlUrl with
  | some url => rfl
  | none =>
    cases dev.dlnaLocation with
    | none => rfl
    | some location =>
      apply follows_silent fun _ => rfl
      intro resolved
      cases resolved
      · rfl
      · rfl

theorem reportStop_stages (result : Except Str Unit) :
    (reportStop result).Follows stageRules Over .idle := by
  cases result with
  | ok _ => rfl
  | error e => exact eprintln_stages _

theorem mediaPresent_stages (isUrl : Bool) (media : Str) :
    (mediaPresent isUrl media).Follows stageRules Over .idle := by
  cases isUrl with
  | true => rfl
  | false => exact ⟨nofun, fun _ => rfl⟩

theorem startCast_stages (isUrl : Bool) (dev : Device) (controlUrl media title : Str) :
    (startCast isUrl dev controlUrl media title).Follows stageRules
      (Attempt MediaCastSession.stage .idle) .idle := by
  cases isUrl with
  | true => exact await_stages (castUrl_stages controlUrl media title)
  | false => exact await_stages (castFile_stages controlUrl dev.address media title)

theorem runCast_stages (device media : Str) :
    (runCast device media).Follows stageRules Over .idle := by
  unfold runCast
  extract_lets isUrl
  apply (mediaPresent_stages isUrl media).bind
  rintro present _ rfl
  cases present with
  | false => exact eprintln_stages _
  | true =>
    apply follows_silent fun _ => rfl
    intro _
    apply follows_silent fun _ => rfl
    intro devices
    cases findDevice devices device with
    | none => exact eprintln_stages _
    | some dev =>
      apply (resolveDlnaControlUrl_stages dev).bind
      rintro (_ | controlUrl) _ rfl
      · exact eprintln_stages _
      · apply (startCast_stages isUrl dev controlUrl media _).attempt
        · intro session
          apply follows_silent fun _ => rfl
          intro _
          apply follows_silent fun _ => rfl
          intro _
          apply follows_silent fun _ => rfl
          intro _
          apply follows_silent fun _ => rfl
          intro _
          apply (await_stages (mediaStop_stages session)).bind
          rintro result _ rfl
          exact reportStop_stages result
        · intro e
          exact eprintln_stages _

theorem runMirror_stages (device : Str) (fps bitrateKbps : ℕ) :
    (runMirror device fps bitrateKbps).Follows stageRules Over .idle := by
  apply follows_silent fun _ => rfl
  intro _
  apply follows_silent fun _ => rfl
  intro devices
  cases findDevice devices device with
  | none => exact eprintln_stages _
  | some dev =>
    apply (resolveDlnaControlUrl_stages dev).bind
    rintro (_ | controlUrl) _ rfl
    · exact eprintln_stages _
    · apply (await_stages (startLiveMirror_stages controlUrl dev.address _)).attempt
      · intro session
        apply follows_silent fun _ => rfl
        intro _
        apply follows_silent fun _ => rfl
        intro _
        apply follows_silent fun _ => rfl
        intro captureEnded
        have hend : (reportEnd captureEnded).Follows stageRules (fun _ t => t = session.stage)
            session.stage := by
          cases captureEnded with
          | true => exact ⟨nofun, fun _ => rfl⟩
          | false => rfl
        apply hend.bind
        rintro _ _ rfl
        apply follows_silent fun _ => rfl
        intro _
        apply follows_silent fun _ => rfl
        intro _
        apply (await_stages (liveStop_stages session)).bind
        rintro result _ rfl
        apply (reportStop_stages result).bind
        rintro _ _ rfl
        exact ⟨nofun, fun _ => rfl⟩
      · intro e
        exact eprintln_stages _

/-- An operation that talks to no renderer but one. -/
def TalksTo (controlUrl : Str) (o : Op) : Prop :=
  ∀ url action body, o = .call (.sendSoapAction url action body) → url = controlUrl

/-- The calls of the other crates that talk to one renderer. -/
def talkRules (controlUrl : Str) : Discipline Casting.Reply Unit :=
  .only Casting.Reply fun o => TalksTo controlUrl (.call o)

/-- Nothing is claimed of the result. -/
def Anything {α : Type} (_ : α) (_ : Unit) : Prop := True

/-- The session that is started, if one is, plays at the renderer. -/
def PlaysAt {σ : Type} (controlUrl : Str) (renderer : σ → Str) (result : Except Str σ)
    (_ : Unit) : Prop := ∀ session, result = .ok session → renderer session = controlUrl

theorem talks_soap (controlUrl : Str) (action : SoapAction) (body : Str) :
    TalksTo controlUrl (.call (.sendSoapAction controlUrl action body)) := by
  intro url action' body' h
  cases h
  rfl

theorem startServer_talks (controlUrl kind : Str) (localIp : IpAddr) (ext : Str) :
    (startServer kind localIp ext).Follows (talkRules controlUrl) Anything () := by
  refine ⟨nofun, fun bound => ?_⟩
  cases bound
  · trivial
  refine ⟨nofun, fun addr => ?_⟩
  cases addr
  · trivial
  · exact ⟨nofun, fun id => trivial⟩

theorem startMediaServer_talks (controlUrl media : Str) (localIp : IpAddr) :
    (startMediaServer media localIp).Follows (talkRules controlUrl) Anything () := by
  refine ⟨nofun, fun present => ?_⟩
  cases present
  · trivial
  · exact startServer_talks controlUrl _ localIp _

theorem startPlayback_talks (controlUrl mediaUrl title mime : Str) :
    (startPlayback controlUrl mediaUrl title mime).Follows (talkRules controlUrl) Anything () := by
  refine ⟨talks_soap controlUrl _ _, fun set => ?_⟩
  cases set
  · trivial
  refine ⟨talks_soap controlUrl _ _, fun play => ?_⟩
  cases play <;> trivial

theorem castFile_talks (controlUrl : Str) (deviceAddr : IpAddr) (media title : Str) :
    (castFile controlUrl deviceAddr media title).Follows (talkRules controlUrl)
      (PlaysAt controlUrl MediaCastSession.controlUrl) () := by
  refine ⟨nofun, fun localIp => ?_⟩
  cases localIp with
  | error e => exact nofun
  | ok localIp =>
    apply (startMediaServer_talks controlUrl media localIp).bind
    rintro (e | server) _ -
    · exact nofun
    · apply (startPlayback_talks controlUrl server.url title _).bind
      rintro (e | _) _ -
      · exact ⟨nofun, fun _ => nofun⟩
      · intro session hsession
        cases hsession
        rfl

theorem castUrl_talks (controlUrl url title : Str) :
    (castUrl controlUrl url title).Follows (talkRules controlUrl)
      (PlaysAt controlUrl MediaCastSession.controlUrl) () := by
  apply (startPlayback_talks controlUrl url title _).bind
  rintro (e | _) _ -
  · exact nofun
  · intro session hsession
    cases hsession
    rfl

theorem startLiveMirror_talks (controlUrl : Str) (deviceAddr : IpAddr) (title : Str) :
    (startLiveMirror controlUrl deviceAddr title).Follows (talkRules controlUrl)
      (PlaysAt controlUrl Casting.LiveMirrorSession.controlUrl) () := by
  refine ⟨nofun, fun localIp => ?_⟩
  cases localIp with
  | error e => exact nofun
  | ok localIp =>
    apply (startServer_talks controlUrl _ localIp _).bind
    rintro (e | live) _ -
    · exact nofun
    · refine ⟨talks_soap controlUrl _ _, fun set => ?_⟩
      cases set with
      | error e => exact ⟨nofun, fun _ => nofun⟩
      | ok _ =>
        refine ⟨talks_soap controlUrl _ _, fun play => ?_⟩
        cases play with
        | error e => exact ⟨nofun, fun _ => nofun⟩
        | ok _ =>
          intro session hsession
          cases hsession
          rfl

theorem mediaStop_talks (session : MediaCastSession) :
    session.stop.Follows (talkRules session.controlUrl) Anything () := by
  refine ⟨talks_soap _ _ _, fun result => ?_⟩
  cases session.server with
  | none => trivial
  | some server => exact ⟨nofun, fun _ => trivial⟩

theorem liveStop_talks (session : Casting.LiveMirrorSession) :
    session.stop.Follows (talkRules session.controlUrl) Anything () :=
  ⟨talks_soap _ _ _, fun _ => ⟨nofun, fun _ => trivial⟩⟩

/-- Awaiting what talks to one renderer. -/
theorem await_talks {α : Type} {controlUrl : Str} {p : Casting.Async α} {post : α → Unit → Prop}
    (h : p.Follows (talkRules controlUrl) post ()) :
    (await p).Follows (.only Reply (TalksTo controlUrl)) post () := by
  apply h.lift
  · intro _ o ho
    exact ho
  · intro _ o reply
    rfl

theorem reportStop_talks (controlUrl : Str) (result : Except Str Unit) :
    (reportStop result).Follows (.only Reply (TalksTo controlUrl)) Anything () := by
  cases result with
  | ok _ => trivial
  | error e => exact ⟨nofun, fun _ => trivial⟩

theorem startCast_talks (isUrl : Bool) (dev : Device) (controlUrl media title : Str) :
    (startCast isUrl dev controlUrl media title).Follows (.only Reply (TalksTo controlUrl))
      (PlaysAt controlUrl MediaCastSession.controlUrl) () := by
  cases isUrl with
  | true => exact await_talks (castUrl_talks controlUrl media title)
  | false => exact await_talks (castFile_talks controlUrl dev.address media title)

/-! ### What was located -/

/-- A renderer is only talked to once it is located under the name. -/
def locatedRules (needle : Str) : Discipline Reply Log :=
  .history fun log o => ∀ url action body, o = .call (.sendSoapAction url action body) →
    Located needle log url

def Unclaimed {α : Type} (_ : α) (_ : Log) : Prop := True

theorem Located.concat {needle url : Str} {log : Log} (h : Located needle log url)
    (e : Σ o, Reply o) : Located needle (log ++ [e]) url := by
  obtain ⟨devices, dev, hdevices, hdev, hurl⟩ := h
  refine ⟨devices, dev, by simp [hdevices], hdev, hurl.imp_right ?_⟩
  rintro ⟨hnone, location, hlocation, hresolved⟩
  exact ⟨hnone, location, hlocation, by simp [hresolved]⟩

/-- What talks to one renderer may talk to it once it is located. -/
theorem follows_located {α : Type} {needle controlUrl : Str} {p : Async α} {log : Log}
    (h : p.Follows (.only Reply (TalksTo controlUrl)) Anything ())
    (hlog : Located needle log controlUrl) : p.Follows (locatedRules needle) Unclaimed log := by
  have hstable : ∀ log e, Located needle log controlUrl → Located needle (log ++ [e]) controlUrl :=
    fun log e hlog => hlog.concat e
  have hfollows := Follows.of_only hstable (P := fun log o => ∀ url action body,
    o = .call (.sendSoapAction url action body) → Located needle log url) ?_ h hlog
  · exact hfollows.mono fun _ _ _ => trivial
  · intro log o hlog ho url action body hcall
    exact ho url action body hcall ▸ hlog

/-- A call to no renderer. -/
theorem follows_quiet {α : Type} {needle : Str} {o : Op} {next : Reply o → Async α} {log : Log}
    {post : α → Log → Prop} (ho : ∀ url action body, o ≠ .call (.sendSoapAction url action body))
    (h : ∀ reply, (next reply).Follows (locatedRules needle) post (log ++ [⟨o, reply⟩])) :
    (perform o >>= next).Follows (locatedRules needle) post log :=
  ⟨fun url action body hcall => absurd hcall (ho url action body), h⟩

theorem eprintln_located (needle line : Str) (log : Log) :
    (eprintln line).Follows (locatedRules needle) Unclaimed log := ⟨nofun, fun _ => trivial⟩

/-- What is done with a device that was found. -/
theorem resolve_located {needle : Str} {devices : List Device} {dev : Device} {log : Log}
    (hdevices : ⟨.discoverFor 5, devices⟩ ∈ log) (hdev : findDevice devices needle = some dev) :
    (resolveDlnaControlUrl dev).Follows (locatedRules needle)
      (fun result log => ∀ url, result = some url → Located needle log url) log := by
  rw [resolveDlnaControlUrl]
  cases hurl : dev.dlnaControlUrl with
  | some url =>
    intro _ h
    cases h
    exact ⟨devices, dev, hdevices, hdev, .inl hurl⟩
  | none =>
    cases hlocation : dev.dlnaLocation with
    | none => exact nofun
    | some location =>
      refine ⟨nofun, fun resolved => ?_⟩
      cases resolved with
      | error e => exact nofun
      | ok url =>
        rintro _ rfl
        exact ⟨devices, dev, List.mem_append_left _ hdevices, hdev,
          .inr ⟨hurl, location, hlocation, List.mem_append_right _ (List.mem_singleton.mpr rfl)⟩⟩

theorem found_located {needle : Str} {devices : List Device} {dev : Device} {log : Log}
    (hdevices : ⟨.discoverFor 5, devices⟩ ∈ log) (hdev : findDevice devices needle = some dev)
    {next : Option Str → Async Unit}
    (hnone : ∀ log, (next none).Follows (locatedRules needle) Unclaimed log)
    (hsome : ∀ url, (next (some url)).Follows (.only Reply (TalksTo url)) Anything ()) :
    (resolveDlnaControlUrl dev >>= next).Follows (locatedRules needle) Unclaimed log := by
  apply (resolve_located hdevices hdev).bind
  intro result log hresult
  cases result with
  | none => exact hnone log
  | some url => exact follows_located (hsome url) (hresult url rfl)

theorem mem_discovered (log : Log) (devices : List Device) :
    (⟨.discoverFor 5, devices⟩ : Σ o, Reply o) ∈ log ++ [⟨.discoverFor 5, devices⟩] :=
  List.mem_append_right _ (List.mem_singleton.mpr rfl)

theorem runCast_located (device media : Str) (log : Log) :
    (runCast device media).Follows (locatedRules device) Unclaimed log := by
  unfold runCast
  extract_lets isUrl
  have hpresent : (mediaPresent isUrl media).Follows (locatedRules device) Unclaimed log := by
    cases isUrl with
    | true => trivial
    | false => exact ⟨nofun, fun _ => trivial⟩
  apply hpresent.bind
  rintro present log -
  cases present with
  | false => exact eprintln_located device _ log
  | true =>
    refine follows_quiet (by nofun) fun _ => follows_quiet (by nofun) fun devices => ?_
    cases hdev : findDevice devices device with
    | none => exact eprintln_located device _ _
    | some dev =>
      apply found_located (mem_discovered _ devices) hdev
      · exact eprintln_located device _
      · intro controlUrl
        apply (startCast_talks isUrl dev controlUrl media _).bind
        rintro (e | session) _ hsession
        · exact ⟨nofun, fun _ => trivial⟩
        · obtain rfl := hsession session rfl
          refine ⟨nofun, fun _ => ⟨nofun, fun _ => ⟨nofun, fun _ => ⟨nofun, fun _ => ?_⟩⟩⟩⟩
          apply (await_talks (mediaStop_talks session)).bind
          intro result _ _
          exact reportStop_talks session.controlUrl result

theorem runMirror_located (device : Str) (fps bitrateKbps : ℕ) (log : Log) :
    (runMirror device fps bitrateKbps).Follows (locatedRules device) Unclaimed log := by
  refine follows_quiet (by nofun) fun _ => follows_quiet (by nofun) fun devices => ?_
  cases hdev : findDevice devices device with
  | none => exact eprintln_located device _ _
  | some dev =>
    apply found_located (mem_discovered _ devices) hdev
    · exact eprintln_located device _
    · intro controlUrl
      apply (await_talks (startLiveMirror_talks controlUrl dev.address _)).bind
      rintro (e | session) _ hsession
      · exact ⟨nofun, fun _ => trivial⟩
      · obtain rfl := hsession session rfl
        refine ⟨nofun, fun _ => ⟨nofun, fun _ => ⟨nofun, fun captureEnded => ?_⟩⟩⟩
        have hend : (reportEnd captureEnded).Follows (.only Reply (TalksTo session.controlUrl))
            Anything () := by
          cases captureEnded with
          | true => exact ⟨nofun, fun _ => trivial⟩
          | false => trivial
        apply hend.bind
        intro _ _ _
        refine ⟨nofun, fun _ => ⟨nofun, fun _ => ?_⟩⟩
        apply (await_talks (liveStop_talks session)).bind
        intro result _ _
        apply (reportStop_talks session.controlUrl result).bind
        intro _ _ _
        exact ⟨nofun, fun _ => trivial⟩

/-- Whatever its calls return, a command talks to a renderer only after a discovery
has found the device under its name, and only at that device's control URL. -/
theorem command_talks_to_named (command : Command) {log earlier later : Log} {url body : Str}
    {action : SoapAction} {reply : Except Str Str} (h : command.run.Returns () log)
    (hlog : log = earlier ++ ⟨.call (.sendSoapAction url action body), reply⟩ :: later) :
    Located command.device earlier url := by
  have hfollows : command.run.Follows (locatedRules command.device) Unclaimed [] := by
    cases command with
    | mirror device fps bitrateKbps => exact runMirror_located device fps bitrateKbps []
    | cast device media => exact runCast_located device media []
  exact hfollows.allowed h hlog url action body rfl

/-- A link is cast to a device that is named by its address. -/
theorem command_talks_to_named_address :
    let command := Command.cast "192.168.1.9".toList "https://a.test/b.mp4".toList
    Located "192.168.1.9".toList (command.log.take 2)
      "http://192.168.1.9:9197/upnp/control/AVTransport1".toList := by
  intro command
  exact command_talks_to_named command (returns_answered Cli.allSucceed _)
    (show _ = [_, _] ++ _ :: _ from rfl)

end HorizonCast.Cli
