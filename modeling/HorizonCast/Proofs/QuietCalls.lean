import HorizonCast.Spec.Posting

/-! The calls that the window does not notice: most of a start, and the end of a session. -/

namespace HorizonCast.Casting

open Routine Text

/-- A call that posts nothing, looks up no device and is about no pump. -/
def Quiet : Op → Prop
  | .findDevice _ | .clearCasting | .spawnPump _ | .signalStop _ | .awaitPump _ => False
  | _ => True

theorem posts_quiet {o : Op} (ho : Quiet o) : o.posts = [] := by
  cases o with
  | clearCasting => exact ho.elim
  | _ => rfl

theorem exec_quiet {w w' : World} {o : Op} (ho : Quiet o) {answer reply : Reply o}
    (he : w.exec o answer = some (reply, w')) : w'.pumps = w.pumps ∧ w'.snapshot = w.snapshot := by
  cases o with
  | findDevice | clearCasting | spawnPump | signalStop | awaitPump => exact ho.elim
  | _ =>
    cases he
    exact ⟨rfl, rfl⟩

/-! ### Starts -/

theorem startServer_quiet (kind ext : Str) (localIp : IpAddr) :
    (startServer kind localIp ext).Only Quiet := by
  refine ⟨trivial, fun bound => ?_⟩
  cases bound
  · trivial
  refine ⟨trivial, fun addr => ?_⟩
  cases addr
  · trivial
  · exact ⟨trivial, fun _ => trivial⟩

theorem startMediaServer_quiet (media : Str) (localIp : IpAddr) :
    (startMediaServer media localIp).Only Quiet := by
  refine ⟨trivial, fun present => ?_⟩
  cases present
  · trivial
  · exact startServer_quiet _ _ localIp

theorem startPlayback_quiet (controlUrl mediaUrl title mime : Str) :
    (startPlayback controlUrl mediaUrl title mime).Only Quiet := by
  refine ⟨trivial, fun set => ?_⟩
  cases set
  · trivial
  refine ⟨trivial, fun play => ?_⟩
  cases play <;> trivial

theorem castSource_quiet (device : Device) (control : Str) (source : MediaSource) :
    (castSource device control source).Only Quiet := by
  cases source with
  | file path =>
    refine ⟨trivial, fun localIp => ?_⟩
    cases localIp with
    | error e => trivial
    | ok localIp =>
      apply (startMediaServer_quiet path localIp).bind
      rintro (e | server)
      · trivial
      · apply (startPlayback_quiet control server.url _ _).bind
        rintro (e | u)
        · exact ⟨trivial, fun _ => trivial⟩
        · trivial
  | url url =>
    apply (startPlayback_quiet control url _ _).bind
    rintro (e | u) <;> trivial

theorem startLiveMirror_quiet (controlUrl : Str) (deviceAddr : IpAddr) (title : Str) :
    (startLiveMirror controlUrl deviceAddr title).Only Quiet := by
  refine ⟨trivial, fun localIp => ?_⟩
  cases localIp with
  | error e => trivial
  | ok localIp =>
    apply (startServer_quiet _ _ localIp).bind
    rintro (e | live)
    · trivial
    · refine ⟨trivial, fun set => ?_⟩
      cases set with
      | error e => exact ⟨trivial, fun _ => trivial⟩
      | ok a =>
        refine ⟨trivial, fun play => ?_⟩
        cases play with
        | error e => exact ⟨trivial, fun _ => trivial⟩
        | ok a => trivial

/-- A control URL is there or can be looked for. -/
def Startable (device : Device) : Prop :=
  (device.dlnaControlUrl.isSome || device.dlnaLocation.isSome) = true

/-- A device with a control URL can be started on. -/
theorem controlUrl_quiet (device : Device) :
    (controlUrl device).Follows (.only Reply Quiet)
      (fun url _ => url.isSome → Startable device) () := by
  unfold Startable
  rw [controlUrl]
  cases device.dlnaControlUrl with
  | some url => exact fun _ => rfl
  | none =>
    cases device.dlnaLocation with
    | none => exact nofun
    | some location =>
      refine ⟨trivial, fun resolved => ?_⟩
      cases resolved with
      | error e => exact nofun
      | ok url => exact fun _ => rfl

/-! ### Ends -/

theorem mediaStop_quiet (session : MediaCastSession) : session.stop.Only Quiet := by
  refine ⟨trivial, fun _ => ?_⟩
  cases session.server with
  | none => trivial
  | some server => exact ⟨trivial, fun _ => trivial⟩

theorem liveStop_quiet (session : LiveMirrorSession) : session.stop.Only Quiet :=
  ⟨trivial, fun _ => ⟨trivial, fun _ => trivial⟩⟩

end HorizonCast.Casting
