import HorizonCast.Spec.LiveStop

/-! When stopping a live stream returns. `stop` keeps its own sender while it
awaits the serve task, which waits for the bodies in flight, which wait for every
sender: one renderer that is served is enough for a wait that never ends. -/

namespace HorizonCast

open Transition

abbrev AnyStep (_ : LiveServer) (_ : LiveAction) : Prop := True

abbrev LocalStep (_ : LiveServer) (a : LiveAction) : Prop := a.isLocal = true

section Server

variable (http : GracefulShutdown)

/-- Local steps can bring `stop` to return. -/
def LiveServer.CanReturn (s : LiveServer) : Prop :=
  ∃ t, Reaches (LiveServer.step http) LocalStep s t ∧ t.stop = .returned

/-- `stop` awaits the serve task, which waits for a body that can end only once
`stop` has returned. -/
def LiveServer.CyclicWait (s : LiveServer) : Prop :=
  s.stop = .awaiting ∧ s.serve = .draining ∧ ∃ i : ℕ, s.connections[i]? = some .streaming ∧
    ∀ t, Reaches (LiveServer.step http) AnyStep s t → t.connections[i]? ≠ some .streaming →
      t.stop = .returned

/-- The connection ends without its renderer: it is closed, a HEAD request is being
answered on it, or the shutdown closes it. -/
def ConnPhase.LetGo (c : ConnPhase) : Prop :=
  c = .closed ∨ c = .answering true ∨ http.closes c = true

/-- No renderer holds the server up: no body is in flight, no request for one is being
answered, and none has begun to arrive on a connection that the shutdown leaves open. -/
def LiveServer.Unused (s : LiveServer) : Prop := ∀ c ∈ s.connections, c.LetGo http

end Server

variable {http : GracefulShutdown}

namespace GracefulShutdown.Documented

theorem not_letGo_streaming (hhttp : http.Documented) : ¬ ConnPhase.streaming.LetGo http := by
  rintro (h | h | h)
  · cases h
  · cases h
  · rw [hhttp.streaming] at h
    cases h

end GracefulShutdown.Documented

/-! ### What has ended -/

/-- The serve task has only finished when every connection is closed, `stop` only
awaits it after the signal and has only returned when it has finished. -/
structure Ended (s : LiveServer) : Prop where
  signalled : s.stop = .awaiting → s.signalled = true
  closed : s.serve = .finished → ∀ c ∈ s.connections, c = .closed
  finished : s.stop = .returned → s.serve = .finished

theorem move_eq {s s' : LiveServer} {i : ℕ} {next : ConnPhase → Option ConnPhase}
    (h : s.move i next = some s') :
    ∃ c c', s.connections[i]? = some c ∧ next c = some c' ∧
      s' = { s with connections := s.connections.set i c' } := by
  obtain ⟨c, hc, h⟩ := Option.bind_eq_some_iff.mp h
  obtain ⟨c', hc', h⟩ := Option.bind_eq_some_iff.mp h
  exact ⟨c, c', hc, hc', (Option.some.inj h).symm⟩

theorem Ended.move {s s' : LiveServer} (hi : Ended s) {i : ℕ}
    {next : ConnPhase → Option ConnPhase} (h : s.move i next = some s')
    (hnext : next .closed = none) : Ended s' := by
  obtain ⟨c, c', hc, hc', rfl⟩ := move_eq h
  refine ⟨hi.signalled, fun hfin => ?_, hi.finished⟩
  rw [hi.closed hfin c (List.mem_of_getElem? hc), hnext] at hc'
  cases hc'

theorem ended_step (hhttp : http.Documented) {s s' : LiveServer} {a : LiveAction} (hi : Ended s)
    (_ : AnyStep s a) (h : s.step http a = some s') : Ended s' := by
  cases a <;> simp only [LiveServer.step, Option.ite_none_right_eq_some,
    Option.ite_none_left_eq_some, Option.some.injEq] at h
  case connect =>
    obtain ⟨hacc, rfl⟩ := h
    refine ⟨hi.signalled, fun hfin => ?_, hi.finished⟩
    exact absurd (hacc.symm.trans hfin) nofun
  case beginRequest i => exact hi.move h rfl
  case request i isHead => exact hi.move h rfl
  case callStop =>
    obtain ⟨-, rfl⟩ := h
    exact ⟨nofun, hi.closed, nofun⟩
  case signal =>
    obtain ⟨-, rfl⟩ := h
    exact ⟨fun _ => rfl, hi.closed, nofun⟩
  case drain =>
    obtain ⟨⟨hacc, -⟩, rfl⟩ := h
    refine ⟨hi.signalled, nofun, fun hret => ?_⟩
    exact absurd (hacc.symm.trans (hi.finished hret)) nofun
  case answer i => exact hi.move h rfl
  case endBody i => exact hi.move h.2 rfl
  case closeConnection i =>
    obtain ⟨hdraining, h⟩ := h
    obtain ⟨c, c', hc, hc', rfl⟩ := move_eq h
    exact ⟨hi.signalled, fun hfin => absurd (hdraining.symm.trans hfin) nofun, hi.finished⟩
  case finish =>
    obtain ⟨⟨-, hall⟩, rfl⟩ := h
    exact ⟨hi.signalled, fun _ => (hhttp.completes _).mp hall, fun _ => rfl⟩
  case «return» =>
    obtain ⟨⟨-, hfin⟩, rfl⟩ := h
    exact ⟨nofun, hi.closed, fun _ => hfin⟩

theorem ended_init : Ended {} := ⟨nofun, nofun, nofun⟩

/-! ### A renderer that holds the server up -/

/-- Connection `i` does not end without its renderer, and nothing has ended. -/
structure Stuck (http : GracefulShutdown) (i : ℕ) (s : LiveServer) : Prop where
  held : ∃ c, s.connections[i]? = some c ∧ ¬ c.LetGo http
  stop : s.stop ≠ .returned
  serve : s.serve ≠ .finished

theorem Stuck.move {s s' : LiveServer} {i j : ℕ} {next : ConnPhase → Option ConnPhase}
    (hs : Stuck http i s) (h : s.move j next = some s')
    (hnext : ∀ {c c'}, next c = some c' → ¬ c.LetGo http → ¬ c'.LetGo http) :
    Stuck http i s' := by
  obtain ⟨⟨c, hc, hheld⟩, hstop, hserve⟩ := hs
  obtain ⟨old, new, hold, hnew, rfl⟩ := move_eq h
  refine ⟨?_, hstop, hserve⟩
  by_cases hji : j = i
  · subst hji
    cases hold.symm.trans hc
    exact ⟨new, List.getElem?_set_self (List.getElem?_eq_some_iff.mp hc).1, hnext hnew hheld⟩
  · exact ⟨c, by rw [List.getElem?_set_ne hji]; exact hc, hheld⟩

/-- No local step ends the wait: `stop` and the serve task keep the senders that a
body waits for, and nobody but the renderer sends the rest of a head. -/
theorem stuck_step (hhttp : http.Documented) {i : ℕ} {s s' : LiveServer} {a : LiveAction}
    (hs : Stuck http i s) (hlocal : LocalStep s a) (h : s.step http a = some s') :
    Stuck http i s' := by
  cases a <;> simp only [LiveServer.step, Option.ite_none_right_eq_some,
    Option.ite_none_left_eq_some, Option.some.injEq] at h
  case connect | beginRequest | request | callStop => cases hlocal
  case signal =>
    obtain ⟨-, rfl⟩ := h
    exact ⟨hs.held, nofun, hs.serve⟩
  case drain =>
    obtain ⟨-, rfl⟩ := h
    exact ⟨hs.held, hs.stop, nofun⟩
  case answer j =>
    apply hs.move h
    intro c c' hnext hheld
    cases c with
    | answering isHead =>
      cases isHead with
      | false =>
        cases hnext
        exact hhttp.not_letGo_streaming
      | true => exact absurd (.inr (.inl rfl)) hheld
    | _ => cases hnext
  case endBody j =>
    -- The sender in `self` is alive.
    have halive : s.senderAlive = true := by simp [LiveServer.senderAlive, hs.stop]
    exact absurd halive h.1
  case closeConnection j =>
    apply hs.move h.2
    intro c c' hnext hheld
    obtain ⟨hcloses, -⟩ := Option.ite_none_right_eq_some.mp hnext
    exact absurd (.inr (.inr hcloses)) hheld
  case finish =>
    obtain ⟨c, hc, hheld⟩ := hs.held
    exact absurd (.inl ((hhttp.completes _).mp h.1.2 c (List.mem_of_getElem? hc))) hheld
  case «return» => exact absurd h.1.2 hs.serve

theorem not_canReturn (hhttp : http.Documented) {s : LiveServer} (hi : Ended s) {c : ConnPhase}
    (hc : c ∈ s.connections) (hheld : ¬ c.LetGo http) : ¬ s.CanReturn http := by
  rintro ⟨t, hreach, hret⟩
  obtain ⟨i, hi'⟩ := List.mem_iff_getElem?.mp hc
  have hserve : s.serve ≠ .finished := fun hfin => hheld (.inl (hi.closed hfin c hc))
  have hstuck : Stuck http i s := ⟨⟨c, hi', hheld⟩, fun hret => hserve (hi.finished hret), hserve⟩
  exact (hreach.invariant (stuck_step hhttp) hstuck).stop hret

/-! ### Nobody holds the server up -/

theorem reaches_finish {s : LiveServer} (hstop : s.stop = .awaiting)
    (hserve : s.serve = .finished) : s.CanReturn http :=
  ⟨_, .single .return rfl (by simp only [LiveServer.step]; rw [if_pos ⟨hstop, hserve⟩]), rfl⟩

/-- The draining serve task gets rid of a connection that is let go. -/
theorem reaches_closed (hhttp : http.Documented) {s : LiveServer} (hserve : s.serve = .draining)
    {i : ℕ} {c : ConnPhase} (hc : s.connections[i]? = some c) (hletGo : c.LetGo http) :
    Reaches (LiveServer.step http) LocalStep s
      { s with connections := s.connections.set i .closed } := by
  obtain ⟨hi, hget⟩ := List.getElem?_eq_some_iff.mp hc
  have hclose : ∀ {t : LiveServer} {c : ConnPhase}, t.serve = .draining →
      t.connections[i]? = some c → http.closes c = true →
      Reaches (LiveServer.step http) LocalStep t
        { t with connections := t.connections.set i .closed } := by
    intro t c hserve hc hcloses
    refine .single (.closeConnection i) rfl ?_
    simp [LiveServer.step, LiveServer.move, hserve, hc, hcloses]
  rcases hletGo with rfl | rfl | hcloses
  · have hsame : s.connections.set i .closed = s.connections := by
      rw [← hget]
      exact List.set_getElem_self hi
    rw [hsame]
    exact .refl
  · have hanswer : LiveServer.step http s (.answer i) =
        some { s with connections := s.connections.set i (.idle true) } := by
      simp [LiveServer.step, LiveServer.move, hc]
    have hidle := hclose (t := { s with connections := s.connections.set i (.idle true) }) hserve
      (List.getElem?_set_self hi) (hhttp.idle true)
    rw [List.set_set] at hidle
    exact .trans (.single (.answer i) rfl hanswer) hidle
  · exact hclose hserve hc hcloses

/-- The draining serve task gets rid of its connections one by one. -/
theorem drained_canReturn (hhttp : http.Documented) {s : LiveServer} (hstop : s.stop = .awaiting)
    (hserve : s.serve = .draining) (rest : List ConnPhase) (n : ℕ)
    (hconns : s.connections = List.replicate n .closed ++ rest)
    (hrest : ∀ c ∈ rest, c.LetGo http) : s.CanReturn http := by
  induction rest generalizing s n with
  | nil =>
    have hall : http.completes s.connections = true := by
      refine (hhttp.completes _).mpr fun c hc => ?_
      rw [hconns, List.append_nil] at hc
      exact List.eq_of_mem_replicate hc
    obtain ⟨t, hreach, hret⟩ := reaches_finish (s := { s with serve := .finished }) hstop rfl
    exact ⟨t, .trans (.single .finish rfl (if_pos ⟨hserve, hall⟩)) hreach, hret⟩
  | cons c rest ih =>
    have hget : s.connections[n]? = some c := by simp [hconns]
    have hset : s.connections.set n .closed = List.replicate (n + 1) .closed ++ rest := by
      rw [hconns, List.set_append_right _ _ (by simp), List.length_replicate, Nat.sub_self,
        List.set_cons_zero, List.replicate_succ', List.append_assoc]
      rfl
    obtain ⟨t, hreach, hret⟩ := ih (s := { s with connections := s.connections.set n .closed })
      hstop hserve (n + 1) hset fun c hc => hrest c (by simp [hc])
    exact ⟨t, .trans (reaches_closed hhttp hserve hget (hrest c (by simp))) hreach, hret⟩

theorem awaiting_canReturn (hhttp : http.Documented) {s : LiveServer} (hstop : s.stop = .awaiting)
    (hsignal : s.signalled = true) (hunused : s.Unused http) : s.CanReturn http := by
  cases hserve : s.serve with
  | finished => exact reaches_finish hstop hserve
  | draining => exact drained_canReturn hhttp hstop hserve s.connections 0 rfl hunused
  | accepting =>
    obtain ⟨t, hreach, hret⟩ := drained_canReturn hhttp (s := { s with serve := .draining })
      hstop rfl s.connections 0 rfl hunused
    refine ⟨t, .trans (.single .drain rfl ?_) hreach, hret⟩
    simp only [LiveServer.step]
    rw [if_pos ⟨hserve, hsignal⟩]

/-- After `stop` was called, local steps bring it to return, without a cyclic
wait, exactly when no renderer holds the server up. -/
theorem stop_returns_iff (hhttp : http.Documented) {s : LiveServer}
    (h : Reaches (LiveServer.step http) AnyStep {} s) (hcalled : s.stop ≠ .notCalled) :
    (s.CanReturn http ∧ ¬ s.CyclicWait http) ↔ s.Unused http := by
  have hi : Ended s := h.invariant (ended_step hhttp) ended_init
  constructor
  · rintro ⟨hreturn, -⟩ c hc
    by_contra hheld
    exact not_canReturn hhttp hi hc hheld hreturn
  · intro hunused
    refine ⟨?_, ?_⟩
    · cases hstop : s.stop with
      | notCalled => exact absurd hstop hcalled
      | entered =>
        obtain ⟨t, hreach, hret⟩ := awaiting_canReturn hhttp
          (s := { s with stop := .awaiting, signalled := true }) rfl rfl hunused
        refine ⟨t, .trans (.single .signal rfl ?_) hreach, hret⟩
        simp only [LiveServer.step]
        rw [if_pos hstop]
      | awaiting => exact awaiting_canReturn hhttp hstop (hi.signalled hstop) hunused
      | returned => exact ⟨s, .refl, hstop⟩
    · rintro ⟨-, -, i, hi, -⟩
      exact hhttp.not_letGo_streaming (hunused .streaming (List.mem_of_getElem? hi))

/-- A server that leaves a connection open whose first request has begun to arrive. -/
def http1 : GracefulShutdown where
  closes
    | .idle _ | .receiving true => true
    | _ => false
  completes connections := connections.all (· = .closed)

theorem http1_documented : http1.Documented where
  idle _ := rfl
  answering _ := rfl
  streaming := rfl
  completes connections := by simp [http1]

/-- An idle renderer, and one whose HEAD request is being answered. -/
theorem stop_returns_idle :
    ∃ s : LiveServer, s.connections = [.idle false, .answering true] ∧ s.stop = .entered ∧
      (s.CanReturn http1 ∧ ¬ s.CyclicWait http1) := by
  refine ⟨_, ?_, ?_, (stop_returns_iff http1_documented
    (Reaches.of_run_met [.connect, .connect, .request 1 true, .callStop] rfl) ?_).mpr ?_⟩
  · rfl
  · rfl
  · nofun
  · intro c hc
    rcases List.mem_pair.mp hc with rfl | rfl
    · exact .inr (.inr rfl)
    · exact .inr (.inl rfl)

/-- One renderer is watching when `stop` is called, or has sent half a head. -/
theorem stop_deadlocks : http1.Documented ∧ ∀ c ∈ [ConnPhase.streaming, .receiving false],
    ∃ s, Reaches (LiveServer.step http1) AnyStep {} s ∧ s.connections = [c] ∧
      s.stop ≠ .notCalled ∧ ¬ (s.CanReturn http1 ∧ ¬ s.CyclicWait http1) := by
  have hstuck : ∀ {s : LiveServer} {c : ConnPhase},
      Reaches (LiveServer.step http1) AnyStep {} s → s.connections = [c] → ¬ c.LetGo http1 →
      ¬ (s.CanReturn http1 ∧ ¬ s.CyclicWait http1) := by
    intro s c hreach hconns hheld hreturn
    have hended := hreach.invariant (ended_step http1_documented) ended_init
    exact not_canReturn http1_documented hended (by simp [hconns]) hheld hreturn.1
  refine ⟨http1_documented, fun c hc => ?_⟩
  rcases List.mem_pair.mp hc with rfl | rfl
  · have hreach : Reaches (LiveServer.step http1) AnyStep {}
        ⟨.awaiting, true, .draining, [.streaming]⟩ :=
      .of_run_met [.connect, .request 0 false, .answer 0, .callStop, .signal, .drain] rfl
    exact ⟨_, hreach, rfl, nofun, hstuck hreach rfl http1_documented.not_letGo_streaming⟩
  · have hreach : Reaches (LiveServer.step http1) AnyStep {}
        ⟨.awaiting, true, .draining, [.receiving false]⟩ :=
      .of_run_met [.connect, .beginRequest 0, .callStop, .signal, .drain] rfl
    exact ⟨_, hreach, rfl, nofun, hstuck hreach rfl (by simp [ConnPhase.LetGo, http1])⟩

end HorizonCast
