import HorizonCast.Spec.MpegTs

/-! The streaming half of a live mirror (`hc-sink/src/dlna.rs`,
`hc-net/src/live_stream.rs`): each access unit is muxed and published as one chunk. -/

namespace HorizonCast

/-- A live stream, as far as publishing goes: the chunks sent on its broadcast
channel, in order. -/
structure LiveStream where
  sent : List Bytes := []
  deriving DecidableEq, Repr

def LiveStream.publish (live : LiveStream) (chunk : Bytes) : LiveStream :=
  { live with sent := live.sent ++ [chunk] }

structure LiveMirrorSession where
  live : LiveStream := {}
  muxer : MpegTsMuxer := .new
  deriving DecidableEq, Repr

def LiveMirrorSession.pushAccessUnit (s : LiveMirrorSession) (annexb : Bytes) (pts : UInt64)
    (keyframe : Bool) : LiveMirrorSession :=
  let (ts, muxer) := s.muxer.pushAccessUnit annexb pts keyframe
  { s with muxer, live := s.live.publish ts }

def LiveMirrorSession.pushAudioAccessUnit (s : LiveMirrorSession) (adts : Bytes) (pts : UInt64) :
    LiveMirrorSession :=
  let (ts, muxer) := s.muxer.pushAudioAccessUnit adts pts
  { s with muxer, live := s.live.publish ts }

def LiveMirrorSession.push (s : LiveMirrorSession) : Push → LiveMirrorSession
  | .video annexb pts keyframe => s.pushAccessUnit annexb pts keyframe
  | .audio adts pts => s.pushAudioAccessUnit adts pts

def LiveMirrorSession.run (s : LiveMirrorSession) (calls : List Push) : LiveMirrorSession :=
  calls.foldl LiveMirrorSession.push s

/-- The calls of a run, each with the chunk it published. -/
def LiveMirrorSession.chunks (calls : List Push) : List (Push × Bytes) :=
  calls.zip (LiveMirrorSession.run {} calls).live.sent

end HorizonCast
