import HorizonCast.Proofs.RtspFraming

/-! Which request a response is returned to. The responses of the peer's stream are
returned in order, each to the call that is waiting when its last byte has arrived, so a
response left over from a call that was cut short is returned to a later one. -/

namespace HorizonCast

open Text

/-- The response has the `CSeq` that a call sent. -/
def CarriesCseq (resp : RtspResponse) (cseq : UInt32) : Prop :=
  resp.header "CSeq".toList = some (decimal cseq.toNat)

/-! ### Counting bytes -/

/-- The responses that a stream begins with, one after the other and each with its length. -/
def responsesIn (build : Build) : ℕ → Bytes → List (RtspResponse × ℕ)
  | 0, _ => []
  | n + 1, s =>
    match RtspResponse.parse build s with
    | .ok (some (resp, len)) => (resp, len) :: responsesIn build n (s.drop len)
    | _ => []

/-- A connection by lengths: the bytes in hand, the reads to come, and the responses to come. -/
structure Ledger where
  inHand : ℕ
  reads : List ℕ
  due : List ℕ

/-- Wait, for at most `k` reads, until `len` bytes are in hand, and take them. A read of no
bytes ends the wait. -/
def await (len : ℕ) : ℕ → ℕ → List ℕ → Bool × ℕ × List ℕ
  | k, inHand, reads =>
    if len ≤ inHand then (true, inHand - len, reads)
    else
      match k, reads with
      | 0, reads => (false, inHand, reads)
      | _ + 1, [] => (false, inHand, [])
      | k + 1, size :: reads =>
        if size = 0 then (false, inHand, reads) else await len k (inHand + size) reads

/-- The reads that a call can wait for, with `all` of them left. -/
def Fate.patience (all : ℕ) : Fate → Option ℕ
  | .returns .ok => some (all + 1)
  | .readFails k _ | .droppedInRead k => some k
  | _ => none

namespace Ledger

/-- Whether a call gets the response that is due, and what is left. -/
def call (l : Ledger) (fate : Fate) : Bool × Ledger :=
  match fate.patience l.reads.length, l.due with
  | some k, len :: due =>
    match await len k l.inHand l.reads with
    | (true, inHand, reads) => (true, ⟨inHand, reads, due⟩)
    | (false, inHand, reads) => (false, ⟨inHand, reads, len :: due⟩)
  | _, _ => (false, l)

/-- The numbers of the calls that get a response, the last call before them having been
`cseq`. A debug build has no number after `u32::MAX`. -/
def served (build : Build) : UInt32 → Ledger → List (RtspRequest × Fate) → List UInt32
  | _, _, [] => []
  | cseq, l, (_, fate) :: calls =>
    if build = .debug ∧ cseq = 0xFFFFFFFF then []
    else
      let (gets, l) := l.call fate
      (if gets then [cseq + 1] else []) ++ served build (cseq + 1) l calls

end Ledger

namespace RtspConnection

/-- The responses that the peer still sends, and has sent without their being consumed. -/
def responses (build : Build) (conn : RtspConnection) : List (RtspResponse × ℕ) :=
  responsesIn build conn.unconsumed.length conn.unconsumed

def ledger (build : Build) (conn : RtspConnection) : Ledger where
  inHand := conn.buf.length
  reads := conn.reads.map List.length
  due := (conn.responses build).map Prod.snd

/-- The calls that get a response, by counting the bytes of the responses and of the reads. -/
def served (build : Build) (conn : RtspConnection) (calls : List (RtspRequest × Fate)) :
    List UInt32 := (conn.ledger build).served build conn.cseq calls

end RtspConnection

/-! ### The loop -/

/-- The loop without a bound is the one with a bound that it cannot reach. -/
theorem readResponse_eq (build : Build) (reads : List Bytes) :
    ∀ {k : ℕ} (buf : Bytes), reads.length < k →
      (some (readResponse build buf reads).1, (readResponse build buf reads).2) =
        readUpTo build k buf reads := by
  induction reads with
  | nil =>
    intro k buf hk
    obtain ⟨k, rfl⟩ := Nat.exists_eq_succ_of_ne_zero (by omega : k ≠ 0)
    rw [readResponse, readUpTo]
    cases RtspResponse.parse build buf with
    | panic => rfl
    | err e => rfl
    | ok found => cases found <;> rfl
  | cons chunk reads ih =>
    intro k buf hk
    obtain ⟨k, rfl⟩ := Nat.exists_eq_succ_of_ne_zero (by omega : k ≠ 0)
    rw [readResponse, readUpTo]
    cases RtspResponse.parse build buf with
    | panic => rfl
    | err e => rfl
    | ok found =>
      cases found with
      | none =>
        by_cases hchunk : chunk = []
        · simp [hchunk]
        · simpa [hchunk] using ih (buf ++ chunk) (by simpa using hk)
      | some found => rfl

section Loop

variable {build : Build} {resp : RtspResponse} {len : ℕ}

/-- A response that stands first in a stream is read as soon as it is there. -/
theorem parse_arrived {buf rest : Bytes}
    (h : RtspResponse.parse build (buf ++ rest) = .ok (some (resp, len)))
    (hlen : len ≤ buf.length) : RtspResponse.parse build buf = .ok (some (resp, len)) := by
  cases hfind : findSubsequence (buf ++ rest) CRLFCRLF with
  | none => simp [parse_no_head build hfind] at h
  | some headEnd =>
    cases hhead : parseHead ((buf ++ rest).take headEnd) with
    | error e => simp [parse_bad_head build hfind hhead] at h
    | ok head =>
      obtain ⟨status, reason, headers⟩ := head
      rcases Nat.lt_or_ge USIZE_MAX (headEnd + 4 + contentLen headers) with hover | hfit
      · simp [parse_overflow build hfind hhead hover] at h
      · have hwhole := parse_fits build hfind hhead hfit
        rw [hwhole] at h
        split_ifs at h with hshort
        · cases h
        · obtain ⟨-, rfl⟩ : _ ∧ headEnd + 4 + contentLen headers = len := by simpa using h
          have hneedle : CRLFCRLF.length = 4 := rfl
          have hfind' := findSubsequence_of_append (by decide) hfind (by omega)
          rw [List.take_append_of_le_length (by omega)] at hhead
          have hnone : RtspResponse.parse build buf ≠ .ok none := by
            rw [parse_fits build hfind' hhead hfit, if_neg (by omega)]
            nofun
          rw [← parse_append build hnone rest, hwhole, if_neg hshort]
          exact h

/-- Before, the parser waits. -/
theorem parse_waits {buf rest : Bytes}
    (h : RtspResponse.parse build (buf ++ rest) = .ok (some (resp, len)))
    (hlen : buf.length < len) : RtspResponse.parse build buf = .ok none := by
  by_contra hnone
  rw [parse_append build hnone rest] at h
  exact absurd (consumed_le build h) (Nat.not_le.mpr hlen)

/-- With a response to come, the loop returns it when enough bytes are in hand, and else
leaves the stream as it was. -/
theorem readUpTo_await {k : ℕ} {buf : Bytes} {reads : List Bytes}
    (h : RtspResponse.parse build (buf ++ reads.flatten) = .ok (some (resp, len))) :
    let after := readUpTo build k buf reads
    let counted := await len k buf.length (reads.map List.length)
    counted.2 = (after.2.1.length, after.2.2.map List.length) ∧
      (counted.1 = true → after.1 = some (.ok resp) ∧
        after.2.1 ++ after.2.2.flatten = (buf ++ reads.flatten).drop len) ∧
      (counted.1 = false → (after.1 = none ∨ ∃ e, after.1 = some (.err e)) ∧
        after.2.1 ++ after.2.2.flatten = buf ++ reads.flatten) := by
  induction k generalizing buf reads with
  | zero =>
    rw [readUpTo.eq_def, await.eq_def]
    by_cases hlen : len ≤ buf.length
    · simp [parse_arrived h hlen, hlen, List.drop_append_of_le_length]
    · simp [parse_waits h (by omega), hlen]
  | succ k ih =>
    rw [readUpTo.eq_def, await.eq_def]
    by_cases hlen : len ≤ buf.length
    · simp [parse_arrived h hlen, hlen, List.drop_append_of_le_length]
    · simp only [parse_waits h (by omega), if_neg hlen]
      cases reads with
      | nil => simp
      | cons chunk reads =>
        by_cases hchunk : chunk = []
        · simp [hchunk]
        · have hsize : chunk.length ≠ 0 := by simpa using hchunk
          simpa [hchunk, hsize] using
            @ih (buf ++ chunk) reads (by simpa using h)

/-- No response stands first in the stream. -/
def Dry (build : Build) (stream : Bytes) : Prop :=
  ∀ found, RtspResponse.parse build stream ≠ .ok (some found)

theorem Dry.buffer {buf rest : Bytes} (h : Dry build (buf ++ rest)) : Dry build buf := by
  intro found hfound
  exact h found (by rw [parse_append build (by rw [hfound]; nofun), hfound])

/-- Then the loop returns none, and consumes nothing. -/
theorem readUpTo_dry {k : ℕ} {buf : Bytes} {reads : List Bytes}
    (h : Dry build (buf ++ reads.flatten)) :
    let after := readUpTo build k buf reads
    (∀ resp, after.1 ≠ some (.ok resp)) ∧
      after.2.1 ++ after.2.2.flatten = buf ++ reads.flatten := by
  induction k generalizing buf reads with
  | zero =>
    rw [readUpTo.eq_def]
    cases hp : RtspResponse.parse build buf with
    | panic => simp [hp]
    | err e => simp [hp]
    | ok found =>
      cases found with
      | none => simp [hp]
      | some found => exact absurd hp (h.buffer found)
  | succ k ih =>
    rw [readUpTo.eq_def]
    cases hp : RtspResponse.parse build buf with
    | panic => simp [hp]
    | err e => simp [hp]
    | ok found =>
      cases found with
      | some found => exact absurd hp (h.buffer found)
      | none =>
        cases reads with
        | nil => simp [hp]
        | cons chunk reads =>
          by_cases hchunk : chunk = []
          · simp [hp, hchunk]
          · simpa [hp, hchunk] using
              @ih (buf ++ chunk) reads (by simpa using h)

end Loop

/-! ### One call -/

section Call

variable (build : Build) {conn : RtspConnection} (req : RtspRequest) {fate : Fate}

/-- A call that gets to read does what the loop does, for as many reads as it waits for. -/
theorem numbered_reads {k : ℕ} (h : fate.patience conn.reads.length = some k) :
    let read := readUpTo build k conn.buf conn.reads
    let after := conn.numbered build req fate
    (after.1 = read.1 ∨ read.1 = none ∧ ∃ e, after.1 = some (.err e)) ∧
      after.2.cseq = conn.cseq + 1 ∧ after.2.buf = read.2.1 ∧ after.2.reads = read.2.2 := by
  cases fate with
  | returns io =>
    cases io with
    | ok =>
      obtain rfl : conn.reads.length + 1 = k := by simpa [Fate.patience] using h
      have hloop := readResponse_eq build conn.reads conn.buf
        (Nat.lt_succ_self conn.reads.length)
      simp [RtspConnection.numbered, RtspConnection.request, RtspConnection.nextCseq, ← hloop]
    | writeFailed e => simp [Fate.patience] at h
    | flushFailed e => simp [Fate.patience] at h
  | readFails reads e =>
    obtain rfl : reads = k := by simpa [Fate.patience] using h
    cases hread : (readUpTo build reads conn.buf conn.reads).1 <;>
      simp [RtspConnection.numbered, RtspConnection.written, RtspConnection.nextCseq, hread]
  | droppedInWrite n => simp [Fate.patience] at h
  | droppedInFlush => simp [Fate.patience] at h
  | droppedInRead reads =>
    obtain rfl : reads = k := by simpa [Fate.patience] using h
    simp [RtspConnection.numbered, RtspConnection.written, RtspConnection.nextCseq]

/-- A call that does not get to read returns no response. -/
theorem numbered_quiet (h : fate.patience conn.reads.length = none) :
    let after := conn.numbered build req fate
    (after.1 = none ∨ ∃ e, after.1 = some (.err e)) ∧
      after.2.cseq = conn.cseq + 1 ∧ after.2.buf = conn.buf ∧ after.2.reads = conn.reads := by
  cases fate with
  | returns io =>
    cases io <;>
      simp_all [Fate.patience, RtspConnection.numbered, RtspConnection.request,
        RtspConnection.nextCseq]
  | readFails reads e => simp [Fate.patience] at h
  | droppedInWrite n => simp [RtspConnection.numbered, RtspConnection.nextCseq]
  | droppedInFlush =>
    simp [RtspConnection.numbered, RtspConnection.written, RtspConnection.nextCseq]
  | droppedInRead reads => simp [Fate.patience] at h

end Call

/-! ### A run -/

/-- What a caller was handed, with the number of its call. -/
def handed : UInt32 × Outcome RtspResponse → Option (UInt32 × RtspResponse)
  | (cseq, .ok resp) => some (cseq, resp)
  | _ => none

/-- The ledger is that of the connection, as long as a response is due. -/
structure Ledger.Tracks (l : Ledger) (build : Build) (n : ℕ) (conn : RtspConnection) : Prop where
  fuel : conn.unconsumed.length ≤ n
  due : l.due = (responsesIn build n conn.unconsumed).map Prod.snd
  counts : l.due ≠ [] → l.inHand = conn.buf.length ∧ l.reads = conn.reads.map List.length

/-- The first response due is the one that stands first in the stream. -/
theorem responsesIn_cons {build : Build} {n : ℕ} {s : Bytes} {resp : RtspResponse} {len : ℕ}
    (hn : s.length ≤ n) (h : RtspResponse.parse build s = .ok (some (resp, len))) :
    ∃ m, responsesIn build n s = (resp, len) :: responsesIn build m (s.drop len) ∧
      (s.drop len).length ≤ m := by
  have hlen := consumed_le build h
  have hpos : 0 < len := by
    by_contra hzero
    obtain rfl : len = 0 := by omega
    have hempty := parse_arrived (show RtspResponse.parse build ([] ++ s) = _ from h) (by simp)
    simp [RtspResponse.parse, findSubsequence, CRLFCRLF] at hempty
  cases n with
  | zero => omega
  | succ m => exact ⟨m, by rw [responsesIn, h], by rw [List.length_drop]; omega⟩

theorem responsesIn_dry {build : Build} {n : ℕ} {s : Bytes} (h : Dry build s) :
    responsesIn build n s = [] := by
  cases n with
  | zero => rfl
  | succ n =>
    rw [responsesIn]
    split
    · rename_i hp
      exact absurd hp (h _)
    · rfl

/-- What a call does with the stream and the ledger. -/
structure Attended (build : Build) (n : ℕ) (conn : RtspConnection)
    (after : Option (Outcome RtspResponse) × RtspConnection) (next : Bool × Ledger) : Prop where
  cseq : after.2.cseq = conn.cseq + 1
  gets : next.1 = true → ∃ resp len m, after.1 = some (.ok resp) ∧
    responsesIn build n conn.unconsumed = (resp, len) :: responsesIn build m after.2.unconsumed ∧
    next.2.Tracks build m after.2
  misses : next.1 = false → (∀ resp, after.1 ≠ some (.ok resp)) ∧
    after.2.unconsumed = conn.unconsumed ∧ next.2.Tracks build n after.2 ∧
    (after.1 = some .panic → Dry build conn.unconsumed)

section Run

variable {build : Build} {n : ℕ} {conn : RtspConnection} {req : RtspRequest} {l : Ledger}

/-- A call that leaves the stream alone leaves the ledger right, if it does not read either or
no response is due. -/
theorem Ledger.Tracks.kept {after : RtspConnection} (hl : l.Tracks build n conn)
    (hstream : after.unconsumed = conn.unconsumed)
    (hcounts : l.due ≠ [] → after.buf = conn.buf ∧ after.reads = conn.reads) :
    l.Tracks build n after := by
  refine ⟨hstream ▸ hl.fuel, by rw [hstream, hl.due], fun hdue => ?_⟩
  obtain ⟨hbuf, hreads⟩ := hcounts hdue
  rw [hbuf, hreads]
  exact hl.counts hdue

/-- A call that does not get to read. -/
theorem attended_quiet {fate : Fate} (hl : l.Tracks build n conn)
    (hpatience : ∀ all, fate.patience all = none) :
    Attended build n conn (conn.numbered build req fate) (l.call fate) := by
  obtain ⟨hresult, hcseq, hbuf, hreads⟩ :=
    numbered_quiet build req (hpatience conn.reads.length)
  have hstream : (conn.numbered build req fate).2.unconsumed = conn.unconsumed := by
    simp only [RtspConnection.unconsumed, hbuf, hreads]
  have hcall : l.call fate = (false, l) := by simp [Ledger.call, hpatience]
  rw [hcall]
  refine ⟨hcseq, nofun, fun _ => ⟨?_, hstream, hl.kept hstream fun _ => ⟨hbuf, hreads⟩, ?_⟩⟩
  · rcases hresult with hresult | ⟨e, hresult⟩ <;> simp [hresult]
  · rcases hresult with hresult | ⟨e, hresult⟩ <;> simp [hresult]

/-- With no response to come the call returns none, whatever it reads. -/
theorem attended_dry {fate : Fate} {k : ℕ} (hl : l.Tracks build n conn)
    (hdry : Dry build conn.unconsumed) (hpatience : fate.patience conn.reads.length = some k) :
    Attended build n conn (conn.numbered build req fate) (l.call fate) := by
  have hdue : l.due = [] := by rw [hl.due, responsesIn_dry hdry]; rfl
  have hcall : l.call fate = (false, l) := by
    unfold Ledger.call
    rw [hdue]
    split
    · contradiction
    · rfl
  obtain ⟨hresult, hcseq, hbuf, hreads⟩ := numbered_reads build req hpatience
  obtain ⟨hnone, hkept⟩ := readUpTo_dry (k := k) hdry
  have hstream : (conn.numbered build req fate).2.unconsumed = conn.unconsumed := by
    simpa only [RtspConnection.unconsumed, hbuf, hreads] using hkept
  rw [hcall]
  refine ⟨hcseq, nofun, fun _ => ⟨?_, hstream, hl.kept hstream (absurd hdue), fun _ => hdry⟩⟩
  rcases hresult with hresult | ⟨-, e, hresult⟩
  · rw [hresult]
    exact hnone
  · simp [hresult]

/-- With a response to come, the call gets it when the ledger says so. -/
theorem attended_due {fate : Fate} {k : ℕ} {resp : RtspResponse} {len : ℕ}
    (hl : l.Tracks build n conn)
    (h : RtspResponse.parse build conn.unconsumed = .ok (some (resp, len)))
    (hpatience : fate.patience conn.reads.length = some k) :
    Attended build n conn (conn.numbered build req fate) (l.call fate) := by
  obtain ⟨m, hcons, hfuel⟩ := responsesIn_cons hl.fuel h
  have hdue := hl.due
  rw [hcons, List.map_cons] at hdue
  obtain ⟨hinHand, hlengths⟩ := hl.counts (by rw [hdue]; nofun)
  have hsize : l.reads.length = conn.reads.length := by rw [hlengths, List.length_map]
  obtain ⟨hresult, hcseq, hbuf, hreads⟩ := numbered_reads build req hpatience
  obtain ⟨hcounted, hgets, hmisses⟩ := readUpTo_await (k := k) h
  rw [← hbuf, ← hreads, ← hinHand, ← hlengths] at hcounted
  simp only [← hbuf, ← hreads, ← hinHand, ← hlengths] at hgets hmisses
  have hcall : l.call fate =
      ((await len k l.inHand l.reads).1,
        ⟨(await len k l.inHand l.reads).2.1, (await len k l.inHand l.reads).2.2,
          if (await len k l.inHand l.reads).1 then
            (responsesIn build m (conn.unconsumed.drop len)).map Prod.snd
          else l.due⟩) := by
    simp only [Ledger.call, hsize, hpatience, hdue]
    rcases await len k l.inHand l.reads with ⟨_ | _, inHand, reads⟩ <;> rfl
  rw [hcall, hcounted]
  by_cases hgot : (await len k l.inHand l.reads).1 = true
  · obtain ⟨hok, hrest⟩ := hgets hgot
    have hstream : (conn.numbered build req fate).2.unconsumed = conn.unconsumed.drop len := hrest
    rw [if_pos hgot, hgot]
    refine ⟨hcseq, fun _ => ⟨resp, len, m, ?_, by rw [hstream, hcons], hstream ▸ hfuel,
      by rw [hstream], fun _ => ⟨rfl, rfl⟩⟩, nofun⟩
    rcases hresult with hresult | ⟨hnone, -⟩
    · rw [hresult, hok]
    · simp [hok] at hnone
  · obtain ⟨hnot, hrest⟩ := hmisses (by simpa using hgot)
    have hstream : (conn.numbered build req fate).2.unconsumed = conn.unconsumed := hrest
    have hnot' : (conn.numbered build req fate).1 = none ∨
        ∃ e, (conn.numbered build req fate).1 = some (.err e) := by
      rcases hresult with hresult | ⟨-, herr⟩
      · rwa [hresult]
      · exact .inr herr
    rw [if_neg hgot, Bool.eq_false_iff.mpr hgot]
    refine ⟨hcseq, nofun, fun _ => ⟨?_, hstream, ⟨hstream ▸ hl.fuel, by rw [hstream, hl.due],
      fun _ => ⟨rfl, rfl⟩⟩, ?_⟩⟩
    · rcases hnot' with hnot' | ⟨e, hnot'⟩ <;> simp [hnot']
    · rcases hnot' with hnot' | ⟨e, hnot'⟩ <;> simp [hnot']

/-- Whether a call reads is a matter of its fate alone. -/
theorem patience_eq_none {fate : Fate} {all : ℕ} (h : fate.patience all = none) (all' : ℕ) :
    fate.patience all' = none := by
  cases fate with
  | returns io => cases io <;> simp_all [Fate.patience]
  | readFails | droppedInWrite | droppedInFlush | droppedInRead => simp_all [Fate.patience]

theorem numbered_attended (req : RtspRequest) (fate : Fate) (hl : l.Tracks build n conn) :
    Attended build n conn (conn.numbered build req fate) (l.call fate) := by
  cases hpatience : fate.patience conn.reads.length with
  | none => exact attended_quiet hl (patience_eq_none hpatience)
  | some k =>
    by_cases hdry : Dry build conn.unconsumed
    · exact attended_dry hl hdry hpatience
    · obtain ⟨⟨resp, len⟩, hfound⟩ := not_forall_not.mp hdry
      exact attended_due hl hfound hpatience

/-- A run hands out the responses of the stream in order, one to each call that is served. -/
theorem session_served (calls : List (RtspRequest × Fate)) :
    ∀ {n : ℕ} {conn : RtspConnection} {l : Ledger}, l.Tracks build n conn →
      (conn.session build calls).filterMap handed =
        (l.served build conn.cseq calls).zip
          ((responsesIn build n conn.unconsumed).map Prod.fst) := by
  induction calls with
  | nil => intro n conn l hl; rfl
  | cons call calls ih =>
    intro n conn l hl
    obtain ⟨req, fate⟩ := call
    rw [RtspConnection.session, Ledger.served, RtspConnection.exchange, RtspConnection.exhausted]
    by_cases hexhausted : build = .debug ∧ conn.cseq = 0xFFFFFFFF
    · simp [hexhausted, handed]
    · obtain ⟨hcseq, hgets, hmisses⟩ := numbered_attended req fate hl
      simp only [hexhausted, decide_false, if_false, Bool.false_eq_true]
      cases hcall : l.call fate with
      | mk got next =>
        rw [hcall] at hgets hmisses
        cases hafter : conn.numbered build req fate with
        | mk result after =>
          rw [hafter] at hcseq hgets hmisses
          have hnext : conn.nextCseq = conn.cseq + 1 := rfl
          cases got with
          | true =>
            obtain ⟨resp, len, m, rfl, hcons, htracks⟩ := hgets rfl
            have hrest := ih htracks
            rw [hcseq] at hrest
            simp [handed, hcons, hrest, hnext]
          | false =>
            obtain ⟨hnot, hstream, htracks, hpanic⟩ := hmisses rfl
            have hrest := ih htracks
            rw [hcseq, hstream] at hrest
            match result with
            | none => simpa using hrest
            | some (.err e) =>
              have hskip : handed (conn.nextCseq, .err e) = none := rfl
              simpa [List.filterMap_cons, hskip] using hrest
            | some (.ok resp) => exact absurd rfl (hnot resp)
            | some .panic => simp [handed, responsesIn_dry (hpanic rfl)]

end Run

/-- Every response returned is the caller's own, exactly when the responses of the stream
bear, in their order, the numbers of the calls that are served. -/
theorem responses_matched_iff (build : Build) (conn : RtspConnection)
    (calls : List (RtspRequest × Fate)) :
    (∀ cseq resp, (cseq, .ok resp) ∈ conn.session build calls → CarriesCseq resp cseq) ↔
      ∀ p ∈ (conn.served build calls).zip ((conn.responses build).map Prod.fst),
        CarriesCseq p.2 p.1 := by
  have hrun : (conn.session build calls).filterMap handed =
      (conn.served build calls).zip ((conn.responses build).map Prod.fst) :=
    session_served calls ⟨le_rfl, rfl, fun _ => ⟨rfl, rfl⟩⟩
  rw [← hrun]
  constructor
  · intro h p hp
    obtain ⟨⟨cseq, result⟩, hmem, hhanded⟩ := List.mem_filterMap.mp hp
    cases result with
    | ok resp => cases hhanded; exact h cseq resp hmem
    | err e => cases hhanded
    | panic => cases hhanded
  · intro h cseq resp hmem
    exact h (cseq, resp) (List.mem_filterMap.mpr ⟨_, hmem, rfl⟩)

/-- A timeout while the first response is on its way, and a second request. -/
theorem late_response_returned :
    ¬ ∀ (build : Build) (conn : RtspConnection) (calls : List (RtspRequest × Fate)) (cseq : UInt32)
      (resp : RtspResponse), (cseq, .ok resp) ∈ conn.session build calls →
        CarriesCseq resp cseq := by
  intro h
  have hlate := h .release
    { reads := [asBytes
      "RTSP/1.0 200 OK\r\nCSeq: 1\r\n\r\nRTSP/1.0 200 OK\r\nCSeq: 2\r\n\r\n".toList] }
    [(⟨"OPTIONS".toList, "*".toList, [], []⟩, .droppedInRead 0),
      (⟨"RECORD".toList, "*".toList, [], []⟩, .returns .ok)]
    2 ⟨200, "OK".toList, [("CSeq".toList, "1".toList)], []⟩ (by decide +kernel)
  revert hlate
  unfold CarriesCseq
  decide +kernel

end HorizonCast
