import HorizonCast.Lib.Transition
import Mathlib.Tactic.TypeStar

/-! Routines that perform operations, as trees: what a routine does next may
depend on every reply it had. A `Discipline` says which operations may be
performed with a token, and what each reply makes of the token. -/

/-- A routine with results in `α`. -/
inductive Routine {Op : Type} (Reply : Op → Type) (α : Type) where
  | pure (a : α)
  | op (o : Op) (next : Reply o → Routine Reply α)

namespace Routine

variable {Op : Type} {Reply : Op → Type} {α β : Type}

def bind : Routine Reply α → (α → Routine Reply β) → Routine Reply β
  | .pure a, f => f a
  | .op o next, f => .op o fun r => (next r).bind f

instance : Monad (Routine Reply) where
  pure := .pure
  bind := bind

/-- The routine of one operation. -/
def perform (o : Op) : Routine Reply (Reply o) := .op o .pure

theorem perform_bind (o : Op) (f : Reply o → Routine Reply β) :
    (perform o >>= f) = .op o f := rfl

/-! ### Disciplines -/

/-- Which operations the holder of a token may perform, and the token it has
after the reply. -/
structure Discipline (Reply : Op → Type) (τ : Type) where
  allows : τ → Op → Prop
  after : τ → (o : Op) → Reply o → τ

variable {τ : Type} {D : Discipline Reply τ} {post post' : α → τ → Prop}

/-- Whatever the replies, the routine performs only what its token allows, and
`post` holds of its result and the token it is left with. -/
def Follows (D : Discipline Reply τ) (post : α → τ → Prop) : Routine Reply α → τ → Prop
  | .pure a, t => post a t
  | .op o next, t => D.allows t o ∧ ∀ r, Follows D post (next r) (D.after t o r)

theorem follows_op {o : Op} {next : Reply o → Routine Reply α} {t : τ} :
    (Routine.op o next).Follows D post t ↔
      D.allows t o ∧ ∀ r, (next r).Follows D post (D.after t o r) := Iff.rfl

theorem follows_bind {p : Routine Reply α} {f : α → Routine Reply β} {post : β → τ → Prop}
    {t : τ} :
    (p >>= f).Follows D post t ↔ p.Follows D (fun a t' => (f a).Follows D post t') t := by
  induction p generalizing t with
  | pure a => exact Iff.rfl
  | op o next ih =>
    apply and_congr_right
    intro _
    exact forall_congr' fun r => ih r

theorem Follows.mono {p : Routine Reply α} {t : τ} (h : p.Follows D post t)
    (hpost : ∀ a t', post a t' → post' a t') : p.Follows D post' t := by
  induction p generalizing t with
  | pure a => exact hpost a t h
  | op o next ih => exact ⟨h.1, fun r => ih r (h.2 r)⟩

/-- Two routines one after the other, each with what is said of it. -/
theorem Follows.bind {p : Routine Reply α} {f : α → Routine Reply β} {post' : β → τ → Prop}
    {t : τ} (h : p.Follows D post t) (hf : ∀ a t', post a t' → (f a).Follows D post' t') :
    (p >>= f).Follows D post' t := follows_bind.mpr (h.mono hf)

/-- The token after an attempt: as `ok` says of its result, or `failed`. -/
def Attempt {ε : Type} (ok : α → τ) (failed : τ) : Except ε α → τ → Prop
  | .ok a, t => t = ok a
  | .error _, t => t = failed

/-- An attempt and what follows it in each case. -/
theorem Follows.attempt {ε : Type} {p : Routine Reply (Except ε α)}
    {f : Except ε α → Routine Reply β} {post : β → τ → Prop} {ok : α → τ} {failed t : τ}
    (h : p.Follows D (Attempt ok failed) t) (hok : ∀ a, (f (.ok a)).Follows D post (ok a))
    (hfailed : ∀ e, (f (.error e)).Follows D post failed) : (p >>= f).Follows D post t := by
  apply h.bind
  intro result t' ht'
  cases result with
  | ok a => exact ht' ▸ hok a
  | error e => exact ht' ▸ hfailed e

/-! ### Results -/

/-- The routine ends with `a` after the operations and replies of the log. -/
def Returns : Routine Reply α → α → List (Σ o, Reply o) → Prop
  | .pure b, a, log => b = a ∧ log = []
  | .op o next, a, log => ∃ r rest, log = ⟨o, r⟩ :: rest ∧ (next r).Returns a rest

/-- Two routines one after the other, the second with what the first has returned. -/
theorem returns_bind {p : Routine Reply α} {f : α → Routine Reply β} {b : β}
    {log : List (Σ o, Reply o)} :
    (p >>= f).Returns b log ↔
      ∃ a first rest, log = first ++ rest ∧ p.Returns a first ∧ (f a).Returns b rest := by
  induction p generalizing log with
  | pure a =>
    constructor
    · exact fun h => ⟨a, [], log, rfl, ⟨rfl, rfl⟩, h⟩
    · rintro ⟨_, _, rest, rfl, ⟨rfl, rfl⟩, h⟩
      exact h
  | op o next ih =>
    constructor
    · rintro ⟨r, rest, rfl, h⟩
      obtain ⟨a, first, rest, rfl, hfirst, hrest⟩ := (ih r).mp h
      exact ⟨a, ⟨o, r⟩ :: first, rest, rfl, ⟨r, first, rfl, hfirst⟩, hrest⟩
    · rintro ⟨a, _, rest, rfl, ⟨r, first, rfl, hfirst⟩, hrest⟩
      exact ⟨r, first ++ rest, rfl, (ih r).mpr ⟨a, first, rest, rfl, hfirst, hrest⟩⟩

theorem returns_perform {o : Op} {r : Reply o} {log : List (Σ o, Reply o)} :
    (perform o).Returns r log ↔ log = [⟨o, r⟩] := by
  constructor
  · rintro ⟨r, rest, rfl, rfl, rfl⟩
    rfl
  · rintro rfl
    exact ⟨r, [], rfl, rfl, rfl⟩

/-- The run in which each operation has its answer: its result and its log. -/
def answered (answers : ∀ o, Reply o) : Routine Reply α → α × List (Σ o, Reply o)
  | .pure a => (a, [])
  | .op o next =>
    let (a, log) := (next (answers o)).answered answers
    (a, ⟨o, answers o⟩ :: log)

theorem returns_answered (answers : ∀ o, Reply o) (p : Routine Reply α) :
    p.Returns (p.answered answers).1 (p.answered answers).2 := by
  induction p with
  | pure a => exact ⟨rfl, rfl⟩
  | op o next ih => exact ⟨answers o, _, rfl, ih (answers o)⟩

/-- The token after the operations and replies of a log. -/
def Discipline.afterLog (D : Discipline Reply τ) (t : τ) (log : List (Σ o, Reply o)) : τ :=
  log.foldl (fun t e => D.after t e.1 e.2) t

/-- Whatever a routine has performed was allowed with the token of that moment. -/
theorem Follows.allowed_after {p : Routine Reply α} {t : τ} {log : List (Σ o, Reply o)} {a : α}
    (h : p.Follows D post t) (hlog : p.Returns a log) {earlier later : List (Σ o, Reply o)}
    {o : Op} {r : Reply o} (hsplit : log = earlier ++ ⟨o, r⟩ :: later) :
    D.allows (D.afterLog t earlier) o := by
  induction p generalizing t log earlier with
  | pure b =>
    obtain ⟨-, rfl⟩ := hlog
    simp at hsplit
  | op o' next ih =>
    obtain ⟨r', rest, rfl, hrest⟩ := hlog
    cases earlier with
    | nil =>
      cases hsplit
      exact h.1
    | cons e earlier =>
      obtain ⟨rfl, hrest'⟩ := List.cons.inj hsplit
      exact ih r' (h.2 r') hrest hrest'

/-! ### Routines that avoid operations -/

/-- The discipline that allows the operations of `P`. -/
def Discipline.only (Reply : Op → Type) (P : Op → Prop) : Discipline Reply Unit where
  allows _ o := P o
  after t _ _ := t

/-- Every operation the routine can perform is in `P`. -/
def Only (P : Op → Prop) (p : Routine Reply α) : Prop :=
  p.Follows (.only Reply P) (fun _ _ => True) ()

variable {P : Op → Prop}

/-- A routine whose operations are allowed with a token and leave it is left with it. -/
theorem Follows.of_still {post : α → Prop} {t : τ}
    (hP : ∀ o, P o → D.allows t o ∧ ∀ r, D.after t o r = t) {p : Routine Reply α}
    (h : p.Follows (.only Reply P) (fun a _ => post a) ()) :
    p.Follows D (fun a t' => post a ∧ t' = t) t := by
  induction p with
  | pure a => exact ⟨h, rfl⟩
  | op o next ih =>
    obtain ⟨hallows, hafter⟩ := hP o h.1
    refine ⟨hallows, fun r => ?_⟩
    rw [hafter]
    exact ih r (h.2 r)

theorem Only.bind {p : Routine Reply α} {f : α → Routine Reply β} (h : p.Only P)
    (hf : ∀ a, (f a).Only P) : (p >>= f).Only P := Follows.bind h fun a _ _ => hf a

/-! ### Routines among more operations -/

/-- The routine, among operations that its own are some of. -/
def lift {Op' : Type} {Reply' : Op' → Type} (inject : Op → Op')
    (reply : ∀ o, Reply' (inject o) → Reply o) : Routine Reply α → Routine Reply' α
  | .pure a => .pure a
  | .op o next => .op (inject o) fun r => (next (reply o r)).lift inject reply

theorem Follows.lift {Op' : Type} {Reply' : Op' → Type} {inject : Op → Op'}
    {reply : ∀ o, Reply' (inject o) → Reply o} {D' : Discipline Reply' τ}
    (hallows : ∀ {t o}, D.allows t o → D'.allows t (inject o))
    (hafter : ∀ t o r, D'.after t (inject o) r = D.after t o (reply o r))
    {p : Routine Reply α} {t : τ} (h : p.Follows D post t) :
    (p.lift inject reply).Follows D' post t := by
  induction p generalizing t with
  | pure a => exact h
  | op o next ih =>
    refine ⟨hallows h.1, fun r => ?_⟩
    rw [hafter]
    exact ih _ (h.2 _)

/-! ### What was known before -/

/-- The discipline whose tokens are the logs themselves. -/
def Discipline.history (P : List (Σ o, Reply o) → Op → Prop) :
    Discipline Reply (List (Σ o, Reply o)) where
  allows := P
  after log o r := log ++ [⟨o, r⟩]

variable {P : List (Σ o, Reply o) → Op → Prop}

/-- Whenever a routine performed an operation, that was allowed by the log so far. -/
theorem Follows.allowed {p : Routine Reply α} {post : α → List (Σ o, Reply o) → Prop}
    {before log : List (Σ o, Reply o)} {a : α} (h : p.Follows (.history P) post before)
    (hlog : p.Returns a log) {earlier later : List (Σ o, Reply o)} {o : Op} {r : Reply o}
    (hsplit : log = earlier ++ ⟨o, r⟩ :: later) : P (before ++ earlier) o := by
  induction p generalizing before log earlier with
  | pure b =>
    obtain ⟨-, rfl⟩ := hlog
    exact absurd hsplit.symm (by simp)
  | op o' next ih =>
    obtain ⟨r', rest, rfl, hrest⟩ := hlog
    cases earlier with
    | nil =>
      cases hsplit
      rw [List.append_nil]
      exact h.1
    | cons e earlier =>
      obtain ⟨rfl, rfl⟩ := List.cons.inj hsplit
      have hallowed : P (before ++ [⟨o', r'⟩] ++ earlier) o := ih r' (h.2 r') hrest rfl
      rwa [List.append_assoc] at hallowed

/-- A routine that performs only what an invariant of the log allows. -/
theorem Follows.of_only {Q : Op → Prop} {Inv : List (Σ o, Reply o) → Prop} {post : α → Prop}
    (hstable : ∀ log e, Inv log → Inv (log ++ [e])) (hP : ∀ log o, Inv log → Q o → P log o)
    {p : Routine Reply α} (h : p.Follows (.only Reply Q) (fun a _ => post a) ())
    {log : List (Σ o, Reply o)} (hlog : Inv log) :
    p.Follows (.history P) (fun a log => post a ∧ Inv log) log := by
  induction p generalizing log with
  | pure a => exact ⟨h, hlog⟩
  | op o next ih => exact ⟨hP log o hlog h.1, fun r => ih r (h.2 r) (hstable log _ hlog)⟩

/-! ### Protocols -/

section Protocol

variable {ε κ : Type} {event : (o : Op) → Reply o → Option ε} {next : κ → ε → Option κ}

/-- The discipline of a protocol whose events some operations are: what an
operation may show, whatever its reply, is an event that the state allows. -/
def Discipline.ofProtocol (event : (o : Op) → Reply o → Option ε) (next : κ → ε → Option κ) :
    Discipline Reply κ where
  allows k o := ∀ r e, event o r = some e → (next k e).isSome
  after k o r :=
    match event o r with
    | some e => (next k e).getD k
    | none => k

/-- The log goes on with what an allowed operation shows. -/
theorem run_ofProtocol {start k : κ} {log : List ε} (h : Transition.run next start log = some k)
    {o : Op} (ho : (Discipline.ofProtocol event next).allows k o) (r : Reply o) :
    Transition.run next start (log ++ (event o r).toList) =
      some ((Discipline.ofProtocol event next).after k o r) := by
  unfold Discipline.ofProtocol at ho ⊢
  dsimp only at ho ⊢
  cases he : event o r with
  | none =>
    rw [Option.toList_none, List.append_nil]
    exact h
  | some e =>
    obtain ⟨k', hk'⟩ := Option.isSome_iff_exists.mp (ho r e he)
    rw [Option.toList_some, Transition.run_concat, h, Option.bind_some, hk']
    dsimp only
    rw [hk', Option.getD_some]

/-- The events of a log. -/
def shown (event : (o : Op) → Reply o → Option ε) (log : List (Σ o, Reply o)) : List ε :=
  log.flatMap fun e => (event e.1 e.2).toList

/-- What a whole routine has shown is a log of the protocol it follows. -/
theorem Follows.run_shown {p : Routine Reply α} {post : α → κ → Prop} {start k : κ} {a : α}
    (h : p.Follows (.ofProtocol event next) post k) {log : List (Σ o, Reply o)}
    (hlog : p.Returns a log) {before : List ε}
    (hbefore : Transition.run next start before = some k) :
    ∃ k', Transition.run next start (before ++ shown event log) = some k' ∧ post a k' := by
  induction p generalizing k log before with
  | pure b =>
    obtain ⟨rfl, rfl⟩ := hlog
    exact ⟨k, by rwa [shown, List.flatMap_nil, List.append_nil], h⟩
  | op o rest ih =>
    obtain ⟨r, log, rfl, hrest⟩ := hlog
    obtain ⟨k', hrun, hpost⟩ := ih r (h.2 r) hrest (run_ofProtocol hbefore h.1 r)
    refine ⟨k', ?_, hpost⟩
    rwa [shown, List.flatMap_cons, ← List.append_assoc]

end Protocol

end Routine
