import HorizonCast.Spec.Session

/-! A session streams only after a complete handshake, and once it is stopped or
has failed it stays down until its teardown is complete. -/

namespace HorizonCast.Session

open Collections Transition

/-! ### One event -/

/-- What an event can do. -/
inductive Moves : SessionState → Event → SessionState → Prop where
  | startDiscovery : Moves .idle .startDiscovery .discovering
  | deviceChosen : Moves .discovering .deviceChosen .deviceSelected
  | beginNegotiate : Moves .deviceSelected .beginNegotiate .negotiating
  | capsNegotiated : Moves .negotiating .capsNegotiated .connecting
  | connected : Moves .connecting .connected .streaming
  | reconnected : Moves .reconnecting .connected .streaming
  | congested : Moves .streaming .congested .degraded
  | recovered : Moves .degraded .recovered .streaming
  | connectionLost (s : SessionState) (streams : s = .streaming ∨ s = .degraded) :
      Moves s .connectionLost .reconnecting
  | stop (s : SessionState) (active : s ≠ .idle) : Moves s .stop .stopping
  | stopped : Moves .stopping .stopped .idle
  | failed (s : SessionState) (reason : ErrorReason) : Moves s (.failed reason) (.error reason)

theorem next_moves {s s' : SessionState} {e : Event} (h : s.next e = some s') : Moves s e s' := by
  unfold SessionState.next at h
  split at h
  case h_9 => cases h; exact .connectionLost _ (.inl rfl)
  case h_10 => cases h; exact .connectionLost _ (.inr rfl)
  case h_12 =>
    obtain ⟨active, heq⟩ := Option.ite_none_right_eq_some.mp h
    cases heq
    exact .stop _ active
  case h_13 => cases h; exact .failed _ _
  case h_14 => cases h
  all_goals cases h; constructor

/-- An event that ends a session takes it down, and nothing but `Stopped` brings
it up again. -/
theorem Moves.down {s s' : SessionState} {e : Event} (h : Moves s e s')
    (hd : e.ends = true ∨ s.down = true) (hne : e ≠ .stopped) : s'.down = true := by
  cases h with
  | stop | failed => rfl
  | stopped => exact absurd rfl hne
  | connectionLost _ streams =>
    rcases streams with rfl | rfl <;> simp [Event.ends, SessionState.down] at hd
  | _ => simp [Event.ends, SessionState.down] at hd

/-! ### Since the session was idle -/

/-- What has happened since the session was last idle, by its state. -/
def Since : SessionState → List Event → Prop
  | .idle, es => es = []
  | .discovering, es => es = handshake.take 1
  | .deviceSelected, es => es = handshake.take 2
  | .negotiating, es => es = handshake.take 3
  | .connecting, es => es = handshake.take 4
  | .streaming, es | .degraded, es | .reconnecting, es =>
    handshake <+: es ∧ ∀ e ∈ es, e.ends = false ∧ e ≠ .stopped
  | .stopping, _ | .error _, _ => True

theorem Moves.since {s s' : SessionState} {e : Event} {es : List Event} (h : Moves s e s')
    (hs : Since s es) : Since s' (if s' = .idle then [] else es ++ [e]) := by
  -- An established stream stays one: the handshake is still the beginning.
  have more : ∀ {s e}, Since s es → s.established = true → e.ends = false → e ≠ .stopped →
      Since .streaming (es ++ [e]) := by
    intro s e hs hest hends hne
    have hes : Since .streaming es := by cases s <;> first | exact hs | cases hest
    refine ⟨hes.1.trans (List.prefix_append es [e]), fun e' he' => ?_⟩
    rcases List.mem_append.mp he' with he' | he'
    · exact hes.2 e' he'
    · rw [List.mem_singleton.mp he']
      exact ⟨hends, hne⟩
  cases h with
  | startDiscovery | deviceChosen | beginNegotiate | capsNegotiated =>
    cases hs
    rfl
  | connected =>
    cases hs
    exact ⟨List.prefix_rfl, by decide⟩
  | reconnected | congested | recovered => exact more hs rfl rfl nofun
  | connectionLost _ streams => rcases streams with rfl | rfl <;> exact more hs rfl rfl nofun
  | stopped => rfl
  | stop | failed => trivial

theorem drive_since {events : List Event} {s : SessionState} (h : drive .idle events = some s) :
    Since s (sinceIdle events) := by
  refine run_invariant (fun es t => Since t (sinceIdle es)) ?_ ?_ h
  · exact since_of_holds rfl
  · intro es t e t' ht hs hnext
    have hrun : drive .idle (es ++ [e]) = some t' := by
      rw [drive, Transition.run_concat, ht]
      exact hnext
    have hsince := (next_moves hnext).since hs
    by_cases hidle : t' = .idle
    · rw [if_pos hidle] at hsince
      rwa [sinceIdle, since_of_holds (by rw [hrun, hidle])]
    · rw [if_neg hidle] at hsince
      rwa [sinceIdle, since_concat (by rw [hrun]; simpa using hidle)]

/-! ### Since the session went down -/

theorem drive_down {events : List Event} {s : SessionState} (h : drive .idle events = some s) :
    ∀ pre e post, events = pre ++ e :: post → e.ends = true → .stopped ∉ post →
      s.down = true := by
  refine run_invariant (fun es t => ∀ pre e post, es = pre ++ e :: post → e.ends = true →
    .stopped ∉ post → t.down = true) ?_ ?_ h
  · intro pre e post heq
    simp at heq
  · intro es t e t' _ ih hnext pre d post heq hends hpost
    have hmove := next_moves hnext
    rcases List.eq_nil_or_concat post with rfl | ⟨post, e', rfl⟩
    · obtain ⟨-, hd⟩ := List.append_inj' heq rfl
      cases hd
      exact hmove.down (.inl hends) (by rintro rfl; cases hends)
    · rw [List.concat_eq_append, ← List.cons_append, ← List.append_assoc] at heq
      obtain ⟨hes, hd⟩ := List.append_inj' heq rfl
      cases hd
      simp only [List.concat_eq_append, List.mem_append, List.mem_singleton, not_or] at hpost
      exact hmove.down (.inr (ih pre d post hes hends hpost.1)) (Ne.symm hpost.2)

/-- `Stopped` is accepted only while stopping, and leaves the session idle. -/
theorem drive_stopped {events pre post : List Event} {s : SessionState}
    (h : drive .idle events = some s) (heq : events = pre ++ .stopped :: post) :
    drive .idle (pre ++ [.stopped]) = some .idle := by
  subst heq
  rw [List.append_cons, drive, run_append] at h
  obtain ⟨t, ht, -⟩ := Option.bind_eq_some_iff.mp h
  have hstop := ht
  rw [Transition.run_concat] at hstop
  obtain ⟨u, -, hnext⟩ := Option.bind_eq_some_iff.mp hstop
  cases next_moves hnext
  exact ht

theorem lastFailure_concat (events : List Event) (e : Event) :
    lastFailure (events ++ [e]) = e.failure.or (lastFailure events) := by
  cases h : e.failure <;> simp [lastFailure, h]

theorem drive_error {events : List Event} {s : SessionState} (h : drive .idle events = some s) :
    ∀ reason, s = .error reason → lastFailure events = some reason := by
  refine run_invariant (fun es t => ∀ reason, t = .error reason →
    lastFailure es = some reason) ?_ ?_ h
  · intro reason heq
    cases heq
  · intro es t e t' _ _ hnext reason heq
    subst heq
    cases next_moves hnext
    simp [lastFailure_concat, Event.failure]

/-- A session streams only after a complete handshake, with no stop and no
failure since. After a stop or a failure it stays down until `Stopped` returns it
to idle, and an error carries the reason of the most recent failure. -/
theorem streams_only_after_handshake (events : List Event) (s : SessionState)
    (accepted : drive .idle events = some s) :
    (s.established = true →
      handshake <+: sinceIdle events ∧
        ∀ e ∈ sinceIdle events, e ≠ .stop ∧ e ≠ .stopped ∧ ∀ reason, e ≠ .failed reason) ∧
    (∀ pre e post, events = pre ++ e :: post → e.ends = true → .stopped ∉ post →
      s = .stopping ∨ ∃ reason, s = .error reason) ∧
    (∀ pre post, events = pre ++ .stopped :: post →
      drive .idle (pre ++ [.stopped]) = some .idle) ∧
    ∀ reason, s = .error reason → lastFailure events = some reason := by
  refine ⟨fun hest => ?_, fun pre e post heq hends hpost => ?_,
    fun pre post heq => drive_stopped accepted heq, drive_error accepted⟩
  · have hsince := drive_since accepted
    obtain ⟨hshake, hclean⟩ : Since .streaming (sinceIdle events) := by
      cases s <;> first | exact hsince | cases hest
    refine ⟨hshake, fun e he => ?_⟩
    obtain ⟨hends, hne⟩ := hclean e he
    exact ⟨fun heq => by simp [heq, Event.ends] at hends, hne,
      fun reason heq => by simp [heq, Event.ends] at hends⟩
  · have hdown := drive_down accepted pre e post heq hends hpost
    cases s <;> simp [SessionState.down] at hdown ⊢

/-- A session that loses its connection, is stopped and returns to idle, comes up again and
fails. -/
theorem streams_only_after_handshake_reconnected :
    handshake <+: sinceIdle (handshake ++ [.connectionLost]) ∧
      (let ended := handshake ++ [.connectionLost, .stop, .stopped] ++ handshake ++
        [.failed .networkChanged]
      drive .idle (handshake ++ [.connectionLost, .stop] ++ [.stopped]) = some .idle ∧
        lastFailure ended = some .networkChanged ∧
        ∃ s, drive .idle ended = some s ∧ (s = .stopping ∨ ∃ reason, s = .error reason)) := by
  obtain ⟨-, hdown, hstopped, hreason⟩ := streams_only_after_handshake
    (handshake ++ [.connectionLost, .stop, .stopped] ++ handshake ++ [.failed .networkChanged])
    (.error .networkChanged) rfl
  exact ⟨((streams_only_after_handshake (handshake ++ [.connectionLost]) .reconnecting rfl).1
      rfl).1,
    hstopped (handshake ++ [.connectionLost, .stop]) (handshake ++ [.failed .networkChanged]) rfl,
    hreason .networkChanged rfl,
    .error .networkChanged, rfl, hdown (handshake ++ [.connectionLost, .stop, .stopped] ++
      handshake) (.failed .networkChanged) [] rfl rfl List.not_mem_nil⟩

end HorizonCast.Session
