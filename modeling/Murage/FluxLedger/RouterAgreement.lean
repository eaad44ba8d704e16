import Murage.FluxLedger.Effects
import Murage.Library.Transition

/-!
Owns the agreement of the grant ledger with the router: the router of one grant id
under the ledger's rules (applied at most once, a tombstone after a revoke, a
refusal that applies nothing, a request that may execute at any later time or
never), the requests and answers under way, and any number of workers claiming,
sending and completing automatic dispatches.

Does not own: the operator's hand adjustments.
-/

namespace Murage.FluxLedger

open Murage.Library.Transition

inductive RouterGrant where
  | absent
  | applied
  | tombstoned
deriving DecidableEq, Repr

structure Request where
  token : String
  kind : AutoKind
deriving DecidableEq, Repr

inductive Answer where
  | deliver (result : DeliverResult)
  | revoke (result : RevokeResult)
deriving DecidableEq, Repr

def Answer.kind : Answer → AutoKind
  | .deliver _ => .deliver
  | .revoke _ => .revoke

/-- The router, the requests and the answers. A request that is never executed
stays in flight; an answer stays, and may reach its worker late, twice or never. -/
structure Network where
  router : RouterGrant := .absent
  /-- Whether the router ever applied the grant. -/
  everApplied : Bool := false
  /-- Claimed by a worker that has not sent its request. -/
  claimed : List Request := []
  inFlight : List Request := []
  answers : List (String × Answer) := []

namespace Network

def claim (n : Network) (r : Request) : Network := { n with claimed := n.claimed ++ [r] }

def send (n : Network) (r : Request) : Network :=
  { n with claimed := n.claimed.erase r, inFlight := n.inFlight ++ [r] }

/-- Nothing was sent, and nothing will be. -/
def withhold (n : Network) (r : Request) (code : String) : Network :=
  { n with
    claimed := n.claimed.erase r
    answers := n.answers ++ [(r.token, match r.kind with
      | .deliver => .deliver (.refused code)
      | .revoke => .revoke (.refused code))] }

def answer (n : Network) (r : Request) (answer : Answer) : Network :=
  { n with inFlight := n.inFlight.erase r, answers := n.answers ++ [(r.token, answer)] }

def execute (n : Network) (r : Request) (outcome : RevokeOutcome) : Network :=
  match r.kind, n.router with
  | .deliver, .absent =>
    { n.answer r (.deliver .applied) with router := .applied, everApplied := true }
  | .deliver, .applied => n.answer r (.deliver .applied)
  | .deliver, .tombstoned => n.answer r (.deliver .tombstoned)
  | .revoke, _ => { n.answer r (.revoke (.applied outcome)) with router := .tombstoned }

/-- Flux holds a later revision: the request can never execute. -/
def outdate (n : Network) (r : Request) (code : String) : Network :=
  n.answer r (match r.kind with
    | .deliver => .deliver (.superseded code)
    | .revoke => .revoke (.superseded code))

end Network

/-- A worker's claim: the ledger's own condition, narrowed by the caller. -/
structure AutoClaim where
  token : String
  kind : AutoKind
  narrowed : Eligibility := fun _ _ _ => true
  now : Nat
  extra : List (Grant → Grant) := []

/-- `DELIVER_AUTO` or `REVOKE_AUTO`. -/
def AutoKind.auto : AutoKind → Eligibility
  | .deliver => deliverAuto
  | .revoke => revokeAuto

def AutoClaim.request (c : AutoClaim) : DispatchRequest :=
  { token := c.token
    kind := c.kind
    eligible := fun db a g => c.kind.auto db a g && c.narrowed db a g
    now := c.now
    extra := c.extra }

structure RouterSystem where
  clock : Nat
  db : LedgerDb
  network : Network := {}

inductive RouterEvent where
  | wait (ms : Nat)
  | pay (payments : Payments)
  | outbox (change : Grant → Grant)
  | refresh (now : Nat)
  | claim (claim : AutoClaim)
  | send (request : Request)
  | withhold (request : Request) (code : String)
  | execute (request : Request) (outcome : RevokeOutcome)
  | refuse (request : Request) (code : String)
  | outdate (request : Request) (code : String)
  | completeDelivery (answer : DeliveryAnswer)
  | completeRevoke (answer : RevokeAnswer)

namespace RouterSystem

def claim (s : RouterSystem) (c : AutoClaim) : RouterSystem :=
  { s with
    db := (claimDispatch s.clock c.request s.db).1
    network :=
      if (claimDispatch s.clock c.request s.db).2.isSome then s.network.claim ⟨c.token, c.kind⟩
      else s.network }

def apply (s : RouterSystem) : RouterEvent → RouterSystem
  | .wait ms => { s with clock := s.clock + ms }
  | .pay payments => { s with db := { s.db with payments := payments } }
  | .outbox change => { s with db := { s.db with grant := s.db.grant.map change } }
  | .refresh now => { s with db := FluxLedger.refresh now s.db }
  | .claim c => s.claim c
  | .send r => { s with network := s.network.send r }
  | .withhold r code => { s with network := s.network.withhold r code }
  | .execute r outcome => { s with network := s.network.execute r outcome }
  | .refuse r code => { s with network := s.network.answer r (.deliver (.refused code)) }
  | .outdate r code => { s with network := s.network.outdate r code }
  | .completeDelivery a => { s with db := (FluxLedger.completeDelivery s.clock a s.db).1 }
  | .completeRevoke a => { s with db := (FluxLedger.completeRevoke s.clock a s.db).1 }

end RouterSystem

/-- A claim's token is new; a request is sent once, by the worker that claimed it,
and taken once; a completion carries the router's answer, or says it got none. -/
def Enabled (s : RouterSystem) : RouterEvent → Prop
  | .wait _ | .pay _ | .outbox _ | .refresh _ => True
  | .claim c => ∀ row ∈ s.db.rows, row.token ≠ c.token
  | .send r | .withhold r _ => r ∈ s.network.claimed
  | .execute r _ | .outdate r _ => r ∈ s.network.inFlight
  | .refuse r _ => r ∈ s.network.inFlight ∧ r.kind = .deliver
  | .completeDelivery a =>
    (∃ code, a.result = .ambiguous code) ∨ (a.token, .deliver a.result) ∈ s.network.answers
  | .completeRevoke a =>
    (∃ code, a.result = .ambiguous code) ∨ (a.token, .revoke a.result) ∈ s.network.answers

/-- A grant that was never sent, with the account its first batch makes. -/
structure Fresh (s : RouterSystem) : Prop where
  grant : ∃ grant now, s.db.grant = some grant ∧ s.db.account = some (grant.account now) ∧
    grant.status ≠ .done ∧ grant.status ≠ .reversed ∧ grant.attempts = 0 ∧ grant.claimId = none
  undispatched : s.db.dispatches = []
  network : s.network = {}

def RouterRun (start : RouterSystem) : List RouterEvent → RouterSystem → Prop :=
  Run (Restrict (ofFunction RouterSystem.apply) Enabled) start

/-! ## The invariant -/

def Network.tokens (n : Network) : List String :=
  n.claimed.map (·.token) ++ n.inFlight.map (·.token) ++ n.answers.map (·.1)

/-- What relates the dispatches, the account and the network in every run. -/
structure Agreement (rows : List Row) (h : Holding) (n : Network) : Prop where
  tokens : (rows.map (·.token)).Nodup
  single : ∀ row ∈ rows, ∀ other ∈ rows, row.state = .opened → other.state = .opened →
    row.token = other.token
  /-- A token is with one request or one answer. -/
  distinct : n.tokens.Nodup
  requested : ∀ r, r ∈ n.claimed ∨ r ∈ n.inFlight →
    ∃ row ∈ rows, row.token = r.token ∧ row.kind = r.kind.kind
  answered : ∀ a ∈ n.answers, ∃ row ∈ rows, row.token = a.1 ∧ row.kind = a.2.kind.kind
  refused : ∀ row ∈ rows, row.kind = .deliver → row.state = .refused →
    ∃ code, (row.token, .deliver (.refused code)) ∈ n.answers
  /-- A revoke once claimed never leaves the account. -/
  revoking : ∀ row ∈ rows, row.kind = .revoke →
    h.routerState = .revoking ∨ h.routerState = .revoked
  delivering : ∀ row ∈ rows, row.kind = .deliver → row.state = .opened → h.routerState = .maybe
  history : n.everApplied = true → ∃ token, (token, .deliver .applied) ∈ n.answers
  applied : n.router = .applied → n.everApplied = true
  tombstoned : n.router = .tombstoned → ∃ row ∈ rows, row.kind = .revoke
  present : ∀ token, (token, .deliver .applied) ∈ n.answers → n.router ≠ .absent
  removed : ∀ token, (token, .deliver .tombstoned) ∈ n.answers → n.router = .tombstoned
  ended : ∀ token outcome, (token, .revoke (.applied outcome)) ∈ n.answers → n.router = .tombstoned
  isNone : h.routerState = .none → ∀ row ∈ rows, row.kind = .deliver → row.state = .refused
  isDelivered : h.routerState = .delivered → h.applied = h.amount ∧ n.router ≠ .absent
  isRevoked : h.routerState = .revoked → h.applied = 0 ∧ n.router = .tombstoned

def Agrees (s : RouterSystem) : Prop :=
  ∃ h, s.db.holding = some h ∧ Agreement s.db.rows h s.network

namespace Agreement

variable {rows after : List Row} {h : Holding} {n : Network}

theorem unique (agrees : Agreement rows h n) {row other : Row} (isIn : row ∈ rows)
    (otherMember : other ∈ rows) (same : row.token = other.token) : row = other :=
  List.inj_on_of_nodup_map agrees.tokens isIn otherMember same

theorem kind_of_answer (agrees : Agreement rows h n) {row : Row} (isIn : row ∈ rows)
    {answer : Answer} (answered : (row.token, answer) ∈ n.answers) : row.kind = answer.kind.kind := by
  obtain ⟨other, otherMember, token, kind⟩ := agrees.answered _ answered
  rw [agrees.unique isIn otherMember token.symm]
  exact kind

variable {r : Request}

theorem unanswered (agrees : Agreement rows h n) (under : r ∈ n.claimed ∨ r ∈ n.inFlight)
    (answer : Answer) : (r.token, answer) ∉ n.answers := by
  intro answered
  have earlier : r.token ∈ n.claimed.map (·.token) ++ n.inFlight.map (·.token) := by
    rcases under with isIn | isIn <;> simp only [List.mem_append, List.mem_map]
    · exact Or.inl ⟨r, isIn, rfl⟩
    · exact Or.inr ⟨r, isIn, rfl⟩
  have later : r.token ∈ n.answers.map (·.1) := List.mem_map.mpr ⟨_, answered, rfl⟩
  exact (List.nodup_append.mp agrees.distinct).2.2 _ earlier _ later rfl

variable {token : String}

theorem answer_unique (agrees : Agreement rows h n) {first second : Answer}
    (one : (token, first) ∈ n.answers) (two : (token, second) ∈ n.answers) : first = second := by
  have distinct : (n.answers.map (·.1)).Nodup := (List.nodup_append.mp agrees.distinct).2.1
  exact (Prod.mk.inj (List.inj_on_of_nodup_map distinct one two rfl)).2

/-! ### The network moves -/

theorem tokens_of_claimed (isIn : r ∈ n.claimed) (next : Network)
    (claimed : next.claimed = n.claimed.erase r)
    (others : (next.inFlight.map (·.token) ++ next.answers.map (·.1)).Perm
      (r.token :: (n.inFlight.map (·.token) ++ n.answers.map (·.1)))) :
    next.tokens.Perm n.tokens := by
  have taken : (n.claimed.map (·.token)).Perm (r.token :: (n.claimed.erase r).map (·.token)) :=
    (List.perm_cons_erase isIn).map (·.token)
  rw [List.perm_iff_count] at taken others ⊢
  intro token
  have takenCount := taken token
  have othersCount := others token
  simp only [Network.tokens, claimed, List.count_append, List.count_cons] at takenCount othersCount ⊢
  omega

theorem tokens_of_answer (isIn : r ∈ n.inFlight) (answer : Answer) :
    (n.answer r answer).tokens.Perm n.tokens := by
  have taken : (n.inFlight.map (·.token)).Perm (r.token :: (n.inFlight.erase r).map (·.token)) :=
    (List.perm_cons_erase isIn).map (·.token)
  rw [List.perm_iff_count] at taken ⊢
  intro token
  have takenCount := taken token
  simp only [Network.tokens, Network.answer, List.count_append, List.count_cons, List.map_append,
    List.map_cons, List.map_nil, List.count_nil] at takenCount ⊢
  omega

theorem send (agrees : Agreement rows h n) (isIn : r ∈ n.claimed) :
    Agreement rows h (n.send r) where
  tokens := agrees.tokens
  single := agrees.single
  distinct := by
    refine (tokens_of_claimed isIn (n.send r) rfl ?_).nodup_iff.mpr agrees.distinct
    simp only [Network.send, List.map_append, List.map_cons, List.map_nil]
    exact (List.perm_append_comm.append_right _).trans (by simp)
  requested other under := by
    rcases under with claimed | inFlight
    · exact agrees.requested other (Or.inl (List.mem_of_mem_erase claimed))
    · rcases List.mem_append.mp inFlight with before | last
      · exact agrees.requested other (Or.inr before)
      · rw [List.mem_singleton.mp last]
        exact agrees.requested r (Or.inl isIn)
  answered := agrees.answered
  refused := agrees.refused
  revoking := agrees.revoking
  delivering := agrees.delivering
  history := agrees.history
  applied := agrees.applied
  tombstoned := agrees.tombstoned
  present := agrees.present
  removed := agrees.removed
  ended := agrees.ended
  isNone := agrees.isNone
  isDelivered := agrees.isDelivered
  isRevoked := agrees.isRevoked

def Witnesses (router : RouterGrant) : Answer → Prop
  | .deliver .applied => router ≠ .absent
  | .deliver .tombstoned | .revoke (.applied _) => router = .tombstoned
  | _ => True

structure Answering (n next : Network) (r : Request) (answer : Answer) : Prop where
  under : r ∈ n.claimed ∨ r ∈ n.inFlight
  kind : answer.kind = r.kind
  tokens : next.tokens.Perm n.tokens
  claimed : ∀ other ∈ next.claimed, other ∈ n.claimed
  inFlight : ∀ other ∈ next.inFlight, other ∈ n.inFlight
  answers : next.answers = n.answers ++ [(r.token, answer)]
  /-- The router never forgets the grant, nor its tombstone. -/
  router : next.router = n.router ∨ (n.router = .absent ∧ next.router = .applied) ∨
    (r.kind = .revoke ∧ next.router = .tombstoned)
  everApplied : next.everApplied = n.everApplied ∨
    (next.everApplied = true ∧ answer = .deliver .applied)
  applies : n.router = .absent → next.router = .applied → next.everApplied = true
  witnesses : Witnesses next.router answer

theorem answering (agrees : Agreement rows h n) {next : Network} (answer : Answer)
    (answering : Answering n next r answer) : Agreement rows h next := by
  obtain ⟨asked, askedMember, askedToken, askedKind⟩ := agrees.requested r answering.under
  have earlier : ∀ {token : String} {other : Answer}, (token, other) ∈ next.answers →
      (token, other) ∈ n.answers ∨ (token = r.token ∧ other = answer) := by
    intro token other isIn
    rw [answering.answers] at isIn
    rcases List.mem_append.mp isIn with before | last
    · exact Or.inl before
    · exact Or.inr (Prod.mk.inj (List.mem_singleton.mp last))
  have later : ∀ {a : String × Answer}, a ∈ n.answers → a ∈ next.answers := fun isIn => by
    rw [answering.answers]
    exact List.mem_append_left _ isIn
  have last : (r.token, answer) ∈ next.answers := by
    rw [answering.answers]
    simp
  have there : n.router ≠ .absent → next.router ≠ .absent := by
    intro notAbsent
    rcases answering.router with same | ⟨absent, _⟩ | ⟨_, tombstoned⟩
    · rwa [same]
    · exact absurd absent notAbsent
    · rw [tombstoned]
      simp
  have gone : n.router = .tombstoned → next.router = .tombstoned := by
    intro tombstoned
    rcases answering.router with same | ⟨absent, _⟩ | ⟨_, now⟩
    · rwa [same]
    · rw [tombstoned] at absent
      exact RouterGrant.noConfusion absent
    · exact now
  have witnessed : ∀ {token : String} {other : Answer}, (token, other) ∈ next.answers →
      (∀ {before : (token, other) ∈ n.answers}, Witnesses next.router other) →
      Witnesses next.router other := by
    intro token other isIn before
    rcases earlier isIn with old | ⟨_, isLast⟩
    · exact @before old
    · rw [isLast]
      exact answering.witnesses
  refine ⟨agrees.tokens, agrees.single, answering.tokens.nodup_iff.mpr agrees.distinct,
    ?_, ?_, ?_, agrees.revoking, agrees.delivering, ?_, ?_, ?_, ?_, ?_, ?_, agrees.isNone,
    ?_, ?_⟩
  · rintro other (claimed | inFlight)
    · exact agrees.requested other (Or.inl (answering.claimed other claimed))
    · exact agrees.requested other (Or.inr (answering.inFlight other inFlight))
  · rintro ⟨token, other⟩ isIn
    rcases earlier isIn with old | ⟨isToken, isAnswer⟩
    · exact agrees.answered _ old
    · rw [isToken, isAnswer]
      exact ⟨asked, askedMember, askedToken, askedKind.trans (congrArg _ answering.kind.symm)⟩
  · intro row isIn isDeliver isRefused
    obtain ⟨code, refused⟩ := agrees.refused row isIn isDeliver isRefused
    exact ⟨code, later refused⟩
  · intro ever
    rcases answering.everApplied with same | ⟨_, isApplied⟩
    · obtain ⟨token, applied⟩ := agrees.history (same ▸ ever)
      exact ⟨token, later applied⟩
    · exact ⟨r.token, isApplied ▸ last⟩
  · intro isApplied
    rcases answering.router with same | ⟨absent, _⟩ | ⟨_, tombstoned⟩
    · have before := agrees.applied (same ▸ isApplied)
      rcases answering.everApplied with keeps | ⟨now, _⟩
      · rwa [keeps]
      · exact now
    · exact answering.applies absent isApplied
    · rw [tombstoned] at isApplied
      exact RouterGrant.noConfusion isApplied
  · intro tombstoned
    rcases answering.router with same | ⟨_, applied⟩ | ⟨isRevoke, _⟩
    · exact agrees.tombstoned (same ▸ tombstoned)
    · rw [applied] at tombstoned
      exact RouterGrant.noConfusion tombstoned
    · exact ⟨asked, askedMember, askedKind.trans (congrArg AutoKind.kind isRevoke)⟩
  · exact fun token isIn => witnessed isIn fun {before} => there (agrees.present token before)
  · exact fun token isIn => witnessed isIn fun {before} => gone (agrees.removed token before)
  · exact fun token outcome isIn =>
      witnessed isIn fun {before} => gone (agrees.ended token outcome before)
  · intro isDelivered
    obtain ⟨whole, notAbsent⟩ := agrees.isDelivered isDelivered
    exact ⟨whole, there notAbsent⟩
  · intro isRevoked
    obtain ⟨nothing, tombstoned⟩ := agrees.isRevoked isRevoked
    exact ⟨nothing, gone tombstoned⟩

theorem answer (agrees : Agreement rows h n) (isIn : r ∈ n.inFlight) {answer : Answer}
    (kind : answer.kind = r.kind) (witnesses : Witnesses n.router answer) :
    Agreement rows h (n.answer r answer) :=
  agrees.answering answer
    { under := Or.inr isIn
      kind := kind
      tokens := tokens_of_answer isIn answer
      claimed := fun _ => id
      inFlight := fun _ => List.mem_of_mem_erase
      answers := rfl
      router := Or.inl rfl
      everApplied := Or.inl rfl
      applies := fun absent applied => by
        rw [show (n.answer r answer).router = n.router from rfl, absent] at applied
        exact RouterGrant.noConfusion applied
      witnesses := witnesses }

theorem withhold (agrees : Agreement rows h n) (isIn : r ∈ n.claimed) (code : String) :
    Agreement rows h (n.withhold r code) := by
  refine agrees.answering _
    { under := Or.inl isIn
      kind := ?_
      tokens := tokens_of_claimed isIn _ rfl ?_
      claimed := fun _ => List.mem_of_mem_erase
      inFlight := fun _ => id
      answers := rfl
      router := Or.inl rfl
      everApplied := Or.inl rfl
      applies := fun absent applied => ?_
      witnesses := ?_ }
  · cases r.kind <;> rfl
  · simp only [Network.withhold, List.map_append, List.map_cons, List.map_nil, ← List.append_assoc]
    exact List.perm_append_singleton _ _
  · rw [show (n.withhold r code).router = n.router from rfl, absent] at applied
    exact RouterGrant.noConfusion applied
  · cases r.kind <;> exact trivial

theorem outdate (agrees : Agreement rows h n) (isIn : r ∈ n.inFlight) (code : String) :
    Agreement rows h (n.outdate r code) := by
  unfold Network.outdate
  cases isKind : r.kind with
  | deliver => exact agrees.answer isIn isKind.symm trivial
  | revoke => exact agrees.answer isIn isKind.symm trivial

theorem execute (agrees : Agreement rows h n) (isIn : r ∈ n.inFlight) (outcome : RevokeOutcome) :
    Agreement rows h (n.execute r outcome) := by
  unfold Network.execute
  split
  · rename_i isDeliver absent
    exact agrees.answering (.deliver .applied)
      { under := Or.inr isIn
        kind := isDeliver.symm
        tokens := tokens_of_answer isIn (.deliver .applied)
        claimed := fun _ => id
        inFlight := fun _ => List.mem_of_mem_erase
        answers := rfl
        router := Or.inr (Or.inl ⟨absent, rfl⟩)
        everApplied := Or.inr ⟨rfl, rfl⟩
        applies := fun _ _ => rfl
        witnesses := by simp [Witnesses] }
  · rename_i isDeliver applied
    exact agrees.answer isIn isDeliver.symm (by simp [Witnesses, applied])
  · rename_i isDeliver tombstoned
    exact agrees.answer isIn isDeliver.symm tombstoned
  · rename_i isRevoke
    exact agrees.answering (.revoke (.applied outcome))
      { under := Or.inr isIn
        kind := isRevoke.symm
        tokens := tokens_of_answer isIn (.revoke (.applied outcome))
        claimed := fun _ => id
        inFlight := fun _ => List.mem_of_mem_erase
        answers := rfl
        router := Or.inr (Or.inr ⟨isRevoke, rfl⟩)
        everApplied := Or.inl rfl
        applies := fun _ applied => RouterGrant.noConfusion applied
        witnesses := rfl }

/-! ### The ledger moves -/

theorem superseded {kind : AutoKind} (agrees : Agreement rows h n)
    (superseded : Superseded kind rows after) : Agreement after h n := by
  -- an open row is one that was not superseded
  have opened : ∀ new ∈ after, new.state = .opened → new ∈ rows := by
    intro new isIn isOpen
    obtain ⟨old, oldMember, _, _, same | ⟨_, _, ended⟩⟩ := superseded.earlier new isIn
    · exact same ▸ oldMember
    · rw [isOpen] at ended
      exact DispatchState.noConfusion ended
  have still : ∀ {token : String} {kind : DispatchKind},
      (∃ row ∈ rows, row.token = token ∧ row.kind = kind) →
      ∃ row ∈ after, row.token = token ∧ row.kind = kind := by
    rintro token kind ⟨row, isIn, isToken, isKind⟩
    obtain ⟨new, newMember, sameToken, sameKind⟩ := superseded.later row isIn
    exact ⟨new, newMember, sameToken.trans isToken, sameKind.trans isKind⟩
  refine ⟨superseded.tokens ▸ agrees.tokens, ?_, agrees.distinct, ?_, ?_, ?_, ?_, ?_,
    agrees.history, agrees.applied, ?_, agrees.present, agrees.removed,
    agrees.ended, ?_, agrees.isDelivered, agrees.isRevoked⟩
  · intro row isIn other otherMember isOpen otherOpen
    exact agrees.single row (opened row isIn isOpen) other (opened other otherMember otherOpen)
      isOpen otherOpen
  · exact fun r under => still (agrees.requested r under)
  · exact fun a isIn => still (agrees.answered a isIn)
  · intro row isIn isDeliver isRefused
    obtain ⟨old, oldMember, _, _, same | ⟨_, _, ended⟩⟩ := superseded.earlier row isIn
    · exact agrees.refused row (same ▸ oldMember) isDeliver isRefused
    · rw [isRefused] at ended
      exact DispatchState.noConfusion ended
  · intro row isIn isRevoke
    obtain ⟨old, oldMember, _, sameKind, _⟩ := superseded.earlier row isIn
    exact agrees.revoking old oldMember (sameKind ▸ isRevoke)
  · exact fun row isIn isDeliver isOpen =>
      agrees.delivering row (opened row isIn isOpen) isDeliver isOpen
  · intro tombstoned
    obtain ⟨row, isIn, isRevoke⟩ := agrees.tombstoned tombstoned
    obtain ⟨new, newMember, _, sameKind⟩ := superseded.later row isIn
    exact ⟨new, newMember, sameKind.trans isRevoke⟩
  · intro isNone row isIn isDeliver
    obtain ⟨old, oldMember, _, sameKind, same | ⟨isOpen, _, _⟩⟩ := superseded.earlier row isIn
    · exact agrees.isNone isNone row (same ▸ oldMember) isDeliver
    · have maybe := agrees.delivering old oldMember (sameKind ▸ isDeliver) isOpen
      rw [isNone] at maybe
      exact RouterState.noConfusion maybe

theorem claim (agrees : Agreement rows h n) {kind : AutoKind}
    (closed : ∀ row ∈ rows, row.state ≠ .opened) (fresh : ∀ row ∈ rows, row.token ≠ token)
    (deliverable : kind = .deliver → h.routerState = .none ∨ h.routerState = .maybe) :
    Agreement (rows ++ [⟨token, kind.kind, .opened⟩])
      { h with routerState := kind.claimed h.routerState } (n.claim ⟨token, kind⟩) := by
  have maybe : kind = .deliver → kind.claimed h.routerState = .maybe := by
    rintro rfl
    rcases deliverable rfl with isNone | isMaybe
    · simp [AutoKind.claimed, isNone]
    · simp [AutoKind.claimed, isMaybe]
  have under : ∀ r, r ∈ n.claimed ∨ r ∈ n.inFlight → r.token ≠ token := by
    intro r isUnder
    obtain ⟨row, isIn, isToken, _⟩ := agrees.requested r isUnder
    exact isToken ▸ fresh row isIn
  have unanswered : ∀ a ∈ n.answers, a.1 ≠ token := by
    intro a isIn
    obtain ⟨row, rowMember, isToken, _⟩ := agrees.answered a isIn
    exact isToken ▸ fresh row rowMember
  have still : ∀ {name : String} {kind : DispatchKind} (last : Row),
      (∃ row ∈ rows, row.token = name ∧ row.kind = kind) →
      ∃ row ∈ rows ++ [last], row.token = name ∧ row.kind = kind := by
    rintro name kind last ⟨row, isIn, same⟩
    exact ⟨row, List.mem_append_left _ isIn, same⟩
  refine ⟨?_, ?_, ?_, ?_, ?_, ?_, ?_, ?_, agrees.history, agrees.applied, ?_,
    agrees.present, agrees.removed, agrees.ended, ?_, ?_, ?_⟩
  · rw [List.map_append, List.nodup_append]
    refine ⟨agrees.tokens, by simp, ?_⟩
    intro name isIn last lastMember
    obtain ⟨row, rowMember, rfl⟩ := List.mem_map.mp isIn
    rw [List.mem_singleton.mp lastMember]
    exact fresh row rowMember
  · intro row isIn other otherMember isOpen otherOpen
    rcases List.mem_append.mp isIn with before | last
    · exact absurd isOpen (closed row before)
    · rcases List.mem_append.mp otherMember with before | otherLast
      · exact absurd otherOpen (closed other before)
      · rw [List.mem_singleton.mp last, List.mem_singleton.mp otherLast]
  · have isFresh : token ∉ n.tokens := by
      simp only [Network.tokens, List.mem_append, List.mem_map, not_or, not_exists, not_and]
      exact ⟨⟨fun r isIn => under r (Or.inl isIn), fun r isIn => under r (Or.inr isIn)⟩,
        unanswered⟩
    have added : (n.claim ⟨token, kind⟩).tokens.Perm (token :: n.tokens) := by
      simp only [Network.claim, Network.tokens, List.map_append, List.map_cons, List.map_nil,
        List.append_assoc, List.cons_append, List.nil_append]
      exact List.perm_middle
    exact added.nodup_iff.mpr (List.nodup_cons.mpr ⟨isFresh, agrees.distinct⟩)
  · rintro r (claimed | inFlight)
    · rcases List.mem_append.mp claimed with before | last
      · exact still _ (agrees.requested r (Or.inl before))
      · rw [List.mem_singleton.mp last]
        exact ⟨_, List.mem_append_right _ (List.mem_singleton.mpr rfl), rfl, rfl⟩
    · exact still _ (agrees.requested r (Or.inr inFlight))
  · exact fun a isIn => still _ (agrees.answered a isIn)
  · intro row isIn isDeliver isRefused
    rcases List.mem_append.mp isIn with before | last
    · exact agrees.refused row before isDeliver isRefused
    · rw [List.mem_singleton.mp last] at isRefused
      exact DispatchState.noConfusion isRefused
  · intro row isIn isRevoke
    cases kind with
    | revoke => exact Or.inl rfl
    | deliver =>
      rcases List.mem_append.mp isIn with before | last
      · have was := agrees.revoking row before isRevoke
        rcases deliverable rfl with isState | isState <;> rw [isState] at was <;>
          simp at was
      · rw [List.mem_singleton.mp last] at isRevoke
        exact DispatchKind.noConfusion isRevoke
  · intro row isIn isDeliver isOpen
    rcases List.mem_append.mp isIn with before | last
    · exact absurd isOpen (closed row before)
    · rw [List.mem_singleton.mp last] at isDeliver
      refine maybe ?_
      cases kind with
      | deliver => rfl
      | revoke => exact DispatchKind.noConfusion isDeliver
  · intro tombstoned
    obtain ⟨row, isIn, isRevoke⟩ := agrees.tombstoned tombstoned
    exact ⟨row, List.mem_append_left _ isIn, isRevoke⟩
  all_goals
    intro state
    cases kind with
    | deliver => exact RouterState.noConfusion (state.symm.trans (maybe rfl))
    | revoke => exact RouterState.noConfusion state

/-- Rows after a completion ended the open dispatch of `token`. -/
structure Ending (rows : List Row) (n : Network) (token : String) (state : DispatchState) : Prop where
  /-- The open row, and its answer. -/
  owned : ∃ row ∈ rows, row.token = token ∧ row.state = .opened
  ends : state ≠ .opened
  refuses : state = .refused → ∀ row ∈ rows, row.token = token → row.kind = .deliver →
    ∃ code, (token, .deliver (.refused code)) ∈ n.answers

theorem ending (agrees : Agreement rows h n) {state : DispatchState}
    (ending : Ending rows n token state) {moved : Holding}
    (revoking : ∀ row ∈ rows, row.kind = .revoke →
      moved.routerState = .revoking ∨ moved.routerState = .revoked)
    (isNone : moved.routerState = .none →
      ∀ row ∈ movedRows token state rows, row.kind = .deliver → row.state = .refused)
    (isDelivered : moved.routerState = .delivered →
      moved.applied = moved.amount ∧ n.router ≠ .absent)
    (isRevoked : moved.routerState = .revoked → moved.applied = 0 ∧ n.router = .tombstoned) :
    Agreement (movedRows token state rows) moved n := by
  obtain ⟨own, ownMember, ownToken, ownOpen⟩ := ending.owned
  have earlier : ∀ new ∈ movedRows token state rows, ∃ old ∈ rows,
      new.token = old.token ∧ new.kind = old.kind ∧
      ((new = old ∧ ¬(old.token = token ∧ old.state = .opened)) ∨
        (old.token = token ∧ new.state = state)) := by
    intro new isIn
    obtain ⟨old, oldMember, rfl⟩ := List.mem_map.mp isIn
    refine ⟨old, oldMember, ?_⟩
    split_ifs with owned
    · exact ⟨rfl, rfl, Or.inr ⟨owned.1, rfl⟩⟩
    · exact ⟨rfl, rfl, Or.inl ⟨rfl, owned⟩⟩
  have later : ∀ old ∈ rows, ∃ new ∈ movedRows token state rows,
      new.token = old.token ∧ new.kind = old.kind := by
    intro old isIn
    refine ⟨_, List.mem_map_of_mem isIn, ?_⟩
    split_ifs <;> exact ⟨rfl, rfl⟩
  have still : ∀ {name : String} {kind : DispatchKind},
      (∃ row ∈ rows, row.token = name ∧ row.kind = kind) →
      ∃ row ∈ movedRows token state rows, row.token = name ∧ row.kind = kind := by
    rintro name kind ⟨row, isIn, isToken, isKind⟩
    obtain ⟨new, newMember, sameToken, sameKind⟩ := later row isIn
    exact ⟨new, newMember, sameToken.trans isToken, sameKind.trans isKind⟩
  have closed : ∀ new ∈ movedRows token state rows, new.state ≠ .opened := by
    intro new isIn isOpen
    obtain ⟨old, oldMember, _, _, ⟨same, other⟩ | ⟨_, ended⟩⟩ := earlier new isIn
    · rw [same] at isOpen
      exact other ⟨(agrees.single old oldMember own ownMember isOpen ownOpen).trans ownToken,
        isOpen⟩
    · exact ending.ends (ended.symm.trans isOpen)
  have tokens : (movedRows token state rows).map (·.token) = rows.map (·.token) := by
    unfold movedRows
    rw [List.map_map]
    refine List.map_congr_left fun row _ => ?_
    simp only [Function.comp_apply]
    split_ifs <;> rfl
  refine ⟨tokens ▸ agrees.tokens, ?_, agrees.distinct, ?_, ?_, ?_, ?_, ?_,
    agrees.history, agrees.applied, ?_, agrees.present, agrees.removed,
    agrees.ended, isNone, isDelivered, isRevoked⟩
  · exact fun row isIn _ _ isOpen => absurd isOpen (closed row isIn)
  · exact fun r under => still (agrees.requested r under)
  · exact fun a isIn => still (agrees.answered a isIn)
  · intro row isIn isDeliver isRefused
    obtain ⟨old, oldMember, sameToken, sameKind, ⟨same, _⟩ | ⟨isToken, ended⟩⟩ := earlier row isIn
    · exact agrees.refused row (same ▸ oldMember) isDeliver isRefused
    · rw [sameToken, isToken]
      exact ending.refuses (ended.symm.trans isRefused) old oldMember isToken (sameKind ▸ isDeliver)
  · intro row isIn isRevoke
    obtain ⟨old, oldMember, _, sameKind, _⟩ := earlier row isIn
    exact revoking old oldMember (sameKind ▸ isRevoke)
  · exact fun row isIn _ isOpen => absurd isOpen (closed row isIn)
  · intro tombstoned
    obtain ⟨row, isIn, isRevoke⟩ := agrees.tombstoned tombstoned
    obtain ⟨new, newMember, _, sameKind⟩ := later row isIn
    exact ⟨new, newMember, sameKind.trans isRevoke⟩

/-- The open delivery of an answered token; while it is open the router state is
`maybe`. -/
theorem open_delivery (agrees : Agreement rows h n)
    (owned : ∃ row ∈ rows, row.token = token ∧ row.state = .opened) {result : DeliverResult}
    (answered : (token, .deliver result) ∈ n.answers) :
    h.routerState = .maybe ∧ ∀ row ∈ rows, row.kind ≠ .revoke := by
  obtain ⟨row, isIn, rfl, isOpen⟩ := owned
  have isMaybe := agrees.delivering row isIn (agrees.kind_of_answer isIn answered) isOpen
  refine ⟨isMaybe, fun other otherMember isRevoke => ?_⟩
  have was := agrees.revoking other otherMember isRevoke
  rw [isMaybe] at was
  simp at was

theorem completeDelivery (agrees : Agreement rows h n)
    (owned : ∃ row ∈ rows, row.token = token ∧ row.state = .opened) {result : DeliverResult}
    (answered : (∃ code, result = .ambiguous code) ∨ (token, .deliver result) ∈ n.answers)
    {alone : Bool} (others : alone = true →
      ∀ row ∈ rows, row.kind = .deliver → row.token ≠ token → row.state = .refused) :
    Agreement (movedRows token result.ends rows) (h.afterDelivery alone result) n := by
  rcases answered with ⟨code, rfl⟩ | answered
  · rw [DeliverResult.ends, movedRows_opened]
    exact agrees
  obtain ⟨isMaybe, noRevoke⟩ := agrees.open_delivery owned answered
  have noRevoking : ∀ moved : Holding, ∀ row ∈ rows, row.kind = .revoke →
      moved.routerState = .revoking ∨ moved.routerState = .revoked :=
    fun _ row isIn isRevoke => absurd isRevoke (noRevoke row isIn)
  cases result with
  | applied =>
    refine agrees.ending ⟨owned, by simp [DeliverResult.ends], by simp [DeliverResult.ends]⟩
      (noRevoking _) (fun state => RouterState.noConfusion state)
      (fun _ => ⟨rfl, agrees.present token answered⟩) (fun state => RouterState.noConfusion state)
  | tombstoned =>
    exact agrees.ending ⟨owned, by simp [DeliverResult.ends], by simp [DeliverResult.ends]⟩
      (noRevoking _) (fun state => RouterState.noConfusion state)
      (fun state => RouterState.noConfusion state)
      (fun _ => ⟨rfl, agrees.removed token answered⟩)
  | refused code =>
    refine agrees.ending ⟨owned, by simp [DeliverResult.ends],
      fun _ _ _ _ _ => ⟨code, answered⟩⟩ (noRevoking _) ?_ ?_ ?_
    · -- every other delivery was refused, and now this one
      intro isNone new isIn isDeliver
      have isAlone : alone = true := by
        by_contra isOther
        simp [Holding.afterDelivery, isMaybe, isOther] at isNone
      obtain ⟨old, oldMember, rfl⟩ := List.mem_map.mp isIn
      by_cases moved : old.token = token ∧ old.state = .opened
      · rw [if_pos moved]
        rfl
      · rw [if_neg moved] at isDeliver ⊢
        refine others isAlone old oldMember isDeliver fun isToken => moved ⟨isToken, ?_⟩
        obtain ⟨row, rowMember, rowToken, isOpen⟩ := owned
        rw [agrees.unique oldMember rowMember (isToken.trans rowToken.symm)]
        exact isOpen
    all_goals
      intro state
      simp only [Holding.afterDelivery, isMaybe] at state
      split_ifs at state
  | superseded code =>
    exact agrees.ending ⟨owned, by simp [DeliverResult.ends], by simp [DeliverResult.ends]⟩
      (noRevoking _) (fun state => RouterState.noConfusion (isMaybe.symm.trans state))
      (fun state => RouterState.noConfusion (isMaybe.symm.trans state))
      (fun state => RouterState.noConfusion (isMaybe.symm.trans state))
  | ambiguous code =>
    rw [DeliverResult.ends, movedRows_opened]
    exact agrees

theorem completeRevoke (agrees : Agreement rows h n)
    (owned : ∃ row ∈ rows, row.token = token ∧ row.state = .opened) {result : RevokeResult}
    (answered : (∃ code, result = .ambiguous code) ∨ (token, .revoke result) ∈ n.answers) :
    Agreement (movedRows token result.ends rows) (h.afterRevoke result) n := by
  rcases answered with ⟨code, rfl⟩ | answered
  · rw [RevokeResult.ends, movedRows_opened]
    exact agrees
  obtain ⟨own, ownMember, ownToken, isOpen⟩ := owned
  have isRevoke : own.kind = .revoke := by
    rw [← ownToken] at answered
    exact agrees.kind_of_answer ownMember answered
  have was := agrees.revoking own ownMember isRevoke
  have refuses : ∀ row ∈ rows, row.token = token → row.kind = .deliver →
      ∃ code, (token, .deliver (.refused code)) ∈ n.answers := by
    intro row isIn isToken isDeliver
    rw [agrees.unique isIn ownMember (isToken.trans ownToken.symm), isRevoke] at isDeliver
    exact DispatchKind.noConfusion isDeliver
  have unmoved : ∀ state : DispatchState, state ≠ .opened →
      Agreement (movedRows token state rows) h n := by
    intro state ended
    refine agrees.ending ⟨⟨own, ownMember, ownToken, isOpen⟩, ended, fun _ => refuses⟩
      agrees.revoking ?_ agrees.isDelivered agrees.isRevoked
    intro isNone
    rw [isNone] at was
    simp at was
  cases result with
  | applied outcome =>
    exact agrees.ending ⟨⟨own, ownMember, ownToken, isOpen⟩, by simp [RevokeResult.ends],
        fun _ => refuses⟩ (fun _ _ _ => Or.inr rfl) (fun state => RouterState.noConfusion state)
      (fun state => RouterState.noConfusion state)
      (fun _ => ⟨rfl, agrees.ended token outcome answered⟩)
  | superseded code => exact unmoved _ (by simp [RevokeResult.ends])
  | refused code => exact unmoved _ (by simp [RevokeResult.ends])
  | ambiguous code =>
    rw [RevokeResult.ends, movedRows_opened]
    exact agrees

end Agreement

/-! ## Runs -/

namespace Agrees

variable {s : RouterSystem}

theorem present (agrees : Agrees s) : s.db.account.isSome := by
  obtain ⟨h, isHolding, _⟩ := agrees
  obtain ⟨account, isAccount, _⟩ := Option.map_eq_some_iff.mp isHolding
  exact Option.isSome_iff_exists.mpr ⟨account, isAccount⟩

theorem start (fresh : Fresh s) : Agrees s := by
  obtain ⟨grant, now, _, isAccount, notDone, notReversed, untried, unclaimed⟩ := fresh.grant
  have rows : s.db.rows = [] := by
    rw [LedgerDb.rows, fresh.undispatched]
    rfl
  refine ⟨(grant.account now).holding, by rw [LedgerDb.holding, isAccount]; rfl, ?_⟩
  have isNone : (grant.account now).holding.routerState = .none := by
    simp [Account.holding, Grant.account, notDone, notReversed, untried, unclaimed]
  rw [rows, fresh.network]
  constructor <;> simp [Network.tokens, isNone]

theorem claimOf_iff (db : LedgerDb) (token : String) :
    (db.claimOf token).isSome = true ↔ ∃ row ∈ db.rows, row.token = token ∧ row.state = .opened := by
  rw [← owns_iff, LedgerDb.claimOf, Option.isSome_map, List.find?_isSome]
  simp [LedgerDb.owns]

theorem claim (agrees : Agrees s) (c : AutoClaim) (fresh : ∀ row ∈ s.db.rows, row.token ≠ c.token) :
    Agrees (s.claim c) := by
  have present := agrees.present
  obtain ⟨h, isHolding, agreement⟩ := agrees
  have isClaimed := claimOf_iff (claimDispatch s.clock c.request s.db).1 c.token
  cases claimDispatch_effect s.clock c.request present fresh with
  | unclaimed superseded kept =>
    refine ⟨h, kept.trans isHolding, ?_⟩
    have none : (claimDispatch s.clock c.request s.db).2.isSome = false := by
      rw [Bool.eq_false_iff]
      intro some
      obtain ⟨row, isIn, isToken, _⟩ := isClaimed.mp some
      obtain ⟨old, oldMember, sameToken, _⟩ := superseded.earlier row isIn
      exact fresh old oldMember (sameToken.symm.trans isToken)
    simp only [RouterSystem.claim, none, Bool.false_eq_true, if_false]
    exact agreement.superseded superseded
  | claimed rows account grant refreshed superseded closed eligible before appended moved =>
    obtain rfl : h = account.holding := Option.some.inj (isHolding.symm.trans before)
    refine ⟨_, moved, ?_⟩
    have some : (claimDispatch s.clock c.request s.db).2.isSome = true :=
      isClaimed.mpr ⟨⟨c.token, c.kind.kind, .opened⟩,
        appended ▸ List.mem_append_right _ (List.mem_singleton.mpr rfl), rfl, rfl⟩
    have freshAfter : ∀ row ∈ rows, row.token ≠ c.token := by
      intro row isIn
      obtain ⟨old, oldMember, sameToken, _⟩ := superseded.earlier row isIn
      exact sameToken ▸ fresh old oldMember
    simp only [RouterSystem.claim, some, if_true]
    rw [appended]
    refine (agreement.superseded superseded).claim closed freshAfter fun isDeliver => ?_
    have auto : deliverAuto refreshed account grant = true := by
      simp only [AutoClaim.request, Bool.and_eq_true] at eligible
      rw [show c.kind = .deliver from isDeliver] at eligible
      exact eligible.1
    simp only [deliverAuto, Bool.and_eq_true, Bool.or_eq_true, beq_iff_eq] at auto
    exact auto.2

theorem step (agrees : Agrees s) {event : RouterEvent} (enabled : Enabled s event) :
    Agrees (s.apply event) := by
  have present := agrees.present
  cases event with
  | wait ms => exact agrees
  | pay payments => exact agrees
  | outbox change => exact agrees
  | refresh now =>
    obtain ⟨h, isHolding, agreement⟩ := agrees
    have unmoved := refresh_unmoved now present
    refine ⟨h, unmoved.2.1.trans isHolding, ?_⟩
    have rows : (FluxLedger.refresh now s.db).rows = s.db.rows := congrArg (List.map _) unmoved.1
    exact rows.symm ▸ agreement
  | claim c => exact agrees.claim c enabled
  | send r =>
    obtain ⟨h, isHolding, agreement⟩ := agrees
    exact ⟨h, isHolding, agreement.send enabled⟩
  | withhold r code =>
    obtain ⟨h, isHolding, agreement⟩ := agrees
    exact ⟨h, isHolding, agreement.withhold enabled code⟩
  | execute r outcome =>
    obtain ⟨h, isHolding, agreement⟩ := agrees
    exact ⟨h, isHolding, agreement.execute enabled outcome⟩
  | refuse r code =>
    obtain ⟨h, isHolding, agreement⟩ := agrees
    exact ⟨h, isHolding, agreement.answer enabled.1 enabled.2.symm trivial⟩
  | outdate r code =>
    obtain ⟨h, isHolding, agreement⟩ := agrees
    exact ⟨h, isHolding, agreement.outdate enabled code⟩
  | completeDelivery a =>
    cases owned : s.db.owns a.token with
    | false =>
      have same := completeDelivery_of_unowned s.clock a owned
      simpa only [RouterSystem.apply, same] using agrees
    | true =>
      obtain ⟨h, isHolding, agreement⟩ := agrees
      rcases completeDelivery_of_owned s.clock a present owned with same | ⟨rows, moved⟩
      · exact ⟨h, by simpa only [RouterSystem.apply, same] using isHolding,
          by simpa only [RouterSystem.apply, same] using agreement⟩
      · refine ⟨_, moved.trans (congrArg (Option.map _) isHolding), ?_⟩
        simp only [RouterSystem.apply]
        rw [rows]
        refine agreement.completeDelivery ((owns_iff _ _).mp owned) enabled fun alone => ?_
        exact (otherDelivery_eq_false_iff _ _).mp (by simpa using alone)
  | completeRevoke a =>
    cases owned : s.db.owns a.token with
    | false =>
      have same := completeRevoke_of_unowned s.clock a owned
      simpa only [RouterSystem.apply, same] using agrees
    | true =>
      obtain ⟨h, isHolding, agreement⟩ := agrees
      rcases completeRevoke_of_owned s.clock a present owned with same | ⟨rows, moved⟩
      · exact ⟨h, by simpa only [RouterSystem.apply, same] using isHolding,
          by simpa only [RouterSystem.apply, same] using agreement⟩
      · refine ⟨_, moved.trans (congrArg (Option.map _) isHolding), ?_⟩
        simp only [RouterSystem.apply]
        rw [rows]
        exact agreement.completeRevoke ((owns_iff _ _).mp owned) enabled

theorem run {start : RouterSystem} {events : List RouterEvent} (fresh : Fresh start)
    (run : RouterRun start events s) : Agrees s :=
  run.invariant (Agrees.start fresh) fun before event after agrees taken => by
    rw [show after = before.apply event from taken.1]
    exact agrees.step taken.2

end Agrees

/-- No request of `kind` can still execute. -/
def Network.quiet (n : Network) (kind : AutoKind) : Prop :=
  ∀ r, r ∈ n.claimed ∨ r ∈ n.inFlight → r.kind ≠ kind

/-- **The ledger agrees with the router.** In every interleaving of the workers'
claims, sends and completions with the router, the payment and the outbox, whenever
no dispatch is open: `delivered` is a grant applied, without a tombstone, that no
revoke can reach, with the whole amount on record; `revoked` is a tombstone and
nothing on record; `none` is a grant never applied that no delivery can reach. -/
theorem ledger_agrees_with_router {start s : RouterSystem} {events : List RouterEvent}
    (fresh : Fresh start) (run : RouterRun start events s) :
    ∃ account, s.db.account = some account ∧ (s.db.hasOpen = false →
      (account.routerState = .delivered → s.network.router = .applied ∧
        s.network.quiet .revoke ∧ account.appliedMicrocents = account.amountMicrocents) ∧
      (account.routerState = .revoked → s.network.router = .tombstoned ∧
        account.appliedMicrocents = 0) ∧
      (account.routerState = .none → s.network.everApplied = false ∧
        s.network.quiet .deliver)) := by
  obtain ⟨h, isHolding, agreement⟩ := Agrees.run fresh run
  obtain ⟨account, isAccount, rfl⟩ := Option.map_eq_some_iff.mp isHolding
  refine ⟨account, isAccount, fun _ => ⟨fun isDelivered => ?_, fun isRevoked => ?_, fun isNone => ?_⟩⟩
  · have noRevoke : ∀ row ∈ s.db.rows, row.kind ≠ .revoke := by
      intro row member isRevoke
      have was := agreement.revoking row member isRevoke
      rw [show account.holding.routerState = .delivered from isDelivered] at was
      simp at was
    obtain ⟨whole, notAbsent⟩ := agreement.isDelivered isDelivered
    refine ⟨?_, fun r under isRevoke => ?_, whole⟩
    · cases isRouter : s.network.router with
      | absent => exact absurd isRouter notAbsent
      | applied => rfl
      | tombstoned =>
        obtain ⟨row, member, isRevoke⟩ := agreement.tombstoned isRouter
        exact absurd isRevoke (noRevoke row member)
    · obtain ⟨row, member, _, isKind⟩ := agreement.requested r under
      exact noRevoke row member (isKind.trans (congrArg AutoKind.kind isRevoke))
  · obtain ⟨nothing, tombstoned⟩ := agreement.isRevoked isRevoked
    exact ⟨tombstoned, nothing⟩
  · have refused : ∀ row ∈ s.db.rows, row.kind = .deliver →
        ∃ code, (row.token, .deliver (.refused code)) ∈ s.network.answers :=
      fun row member isDeliver =>
        agreement.refused row member isDeliver (agreement.isNone isNone row member isDeliver)
    refine ⟨Bool.eq_false_iff.mpr fun ever => ?_, fun r under isDeliver => ?_⟩
    · obtain ⟨token, applied⟩ := agreement.history ever
      obtain ⟨row, member, isToken, isKind⟩ := agreement.answered _ applied
      obtain ⟨code, isRefused⟩ := refused row member isKind
      have same := agreement.answer_unique applied (isToken ▸ isRefused)
      simp at same
    · obtain ⟨row, member, isToken, isKind⟩ := agreement.requested r under
      obtain ⟨code, isRefused⟩ := refused row member (isKind.trans (congrArg AutoKind.kind isDeliver))
      exact agreement.unanswered under _ (isToken ▸ isRefused)

/-- A grant of 100 that was never sent. -/
def unsentGrant : RouterSystem :=
  { clock := 10
    db := {
      grant := some { invoiceId := some "in_1", amountMicrocents := 100 }
      account := some (Grant.account { invoiceId := some "in_1", amountMicrocents := 100 } 0) } }

def deliveryRun : List RouterEvent := [
  .claim { token := "t1", kind := .deliver, now := 10 },
  .send ⟨"t1", .deliver⟩,
  .execute ⟨"t1", .deliver⟩ .revoked,
  .completeDelivery { token := "t1", result := .applied, now := 11 }]

theorem ledger_agrees_with_router_deliveryRun :
    ∃ account, (deliveryRun.foldl RouterSystem.apply unsentGrant).db.account = some account ∧
      account.routerState = .delivered ∧ account.appliedMicrocents = account.amountMicrocents ∧
      (deliveryRun.foldl RouterSystem.apply unsentGrant).network.router = .applied := by
  have fresh : Fresh unsentGrant :=
    ⟨⟨_, 0, rfl, rfl, by decide, by decide, rfl, rfl⟩, rfl, rfl⟩
  have run : RouterRun unsentGrant deliveryRun (deliveryRun.foldl RouterSystem.apply unsentGrant) :=
    (((Run.nil.snoc ⟨rfl, by simp [Enabled, unsentGrant, LedgerDb.rows]⟩).snoc
      ⟨rfl, show (⟨"t1", .deliver⟩ : Request) ∈ _ by decide⟩).snoc
      ⟨rfl, show (⟨"t1", .deliver⟩ : Request) ∈ _ by decide⟩).snoc
      ⟨rfl, Or.inr (show ("t1", Answer.deliver .applied) ∈ _ by decide)⟩
  obtain ⟨account, isAccount, agrees⟩ := ledger_agrees_with_router fresh run
  have isDelivered : account.routerState = .delivered := by
    have state : (deliveryRun.foldl RouterSystem.apply unsentGrant).db.account.map
        (·.routerState) = some .delivered := by decide
    rw [isAccount] at state
    exact Option.some.inj state
  obtain ⟨applied, _, whole⟩ := (agrees (by decide)).1 isDelivered
  exact ⟨account, isAccount, isDelivered, whole, applied⟩

end Murage.FluxLedger
