import FiduciaMessaging.Outbox.DeadLetter

/-! How long an outage the outbox rides out. A row is parked only when its attempts
reach the limit, and each attempt but the first waits out a backoff or a lapsed
lease, whichever workers make them. -/
namespace FiduciaMessaging

open Runs

/- The shortest time between attempt `start + 1` of a row and its attempt `start + 1 + n`:
before each next one a backoff or a lease of length `ttl` has to pass. -/
def climb (start ttl : Int) : Nat → Int
  | 0 => 0
  | n + 1 => climb start ttl n + min (publishBackoff (start + 1 + n)) ttl

/- The same up to attempt number `attempt`. -/
def pace (start ttl attempt : Int) : Int := climb start ttl (attempt - start - 1).toNat

variable {start ttl limit base now : Int} {s s' x y : System} {a : Action} {row row' : OutboxRow}
  {owner : Uuid} {batch : Batch}

theorem publishBackoff_nonneg (attempts : Int) : 0 ≤ publishBackoff attempts := by
  have power : (0 : Int) ≤ 2 ^ min (max (attempts - 1) 0).toNat 8 := Int.pow_nonneg (by decide)
  simp only [publishBackoff, second]
  omega

theorem climb_mono (lasting : 0 ≤ ttl) {n k : Nat} (below : n ≤ k) :
    climb start ttl n ≤ climb start ttl k := by
  induction below with
  | refl => exact le_rfl
  | @step k _ ih =>
    have wait := publishBackoff_nonneg (start + 1 + k)
    simp only [climb]
    omega

theorem pace_mono (lasting : 0 ≤ ttl) {first last : Int} (below : first ≤ last) :
    pace start ttl first ≤ pace start ttl last :=
  climb_mono lasting (by omega)

theorem pace_low {attempt : Int} (low : attempt ≤ start + 1) : pace start ttl attempt = 0 := by
  have none_ : (attempt - start - 1).toNat = 0 := by omega
  simp only [pace, none_, climb]

theorem pace_succ {attempt : Int} (above : start < attempt) :
    pace start ttl (attempt + 1) = pace start ttl attempt + min (publishBackoff attempt) ttl := by
  have steps : (attempt + 1 - start - 1).toNat = (attempt - start - 1).toNat + 1 := by omega
  have level : start + 1 + ((attempt - start - 1).toNat : Int) = attempt := by omega
  simp only [pace, steps, climb, level]

/-- The next attempt is at most a backoff away, and at most a lease away. -/
theorem pace_waits (lasting : 0 ≤ ttl) (attempt : Int) :
    pace start ttl (attempt + 1) ≤ pace start ttl attempt + publishBackoff attempt ∧
      pace start ttl (attempt + 1) ≤ pace start ttl attempt + ttl := by
  by_cases above : start < attempt
  · rw [pace_succ above]
    omega
  · have wait := publishBackoff_nonneg attempt
    rw [pace_low (by omega), pace_low (by omega)]
    omega

/- When a pending row can next be claimed. -/
def OutboxRow.readyAt (row : OutboxRow) : Int := row.claimExpiresAt.getD row.availableAt

/- A row keeps to the pace counted from `base`: its attempts have had the time they take,
the next one still has to wait for its own, and it is parked no earlier than its last. -/
structure Spaced (start ttl limit base now : Int) (row : OutboxRow) : Prop where
  held : ∀ o, row.claimOwner = some o → base + pace start ttl row.attempts ≤ now
  next : row.status = .pending →
    base + pace start ttl (row.attempts + 1) ≤ max now row.readyAt
  parked : row.status = .failed → base + pace start ttl limit ≤ now

theorem Spaced.later {after : Int} (spaced : Spaced start ttl limit base now row)
    (passes : now ≤ after) : Spaced start ttl limit base after row where
  held := by
    intro o owned
    have before := spaced.held o owned
    omega
  next := by
    intro pending
    have before := spaced.next pending
    omega
  parked := by
    intro failed
    have before := spaced.parked failed
    omega

/-- What a call does to a row it settles keeps the pace, if the row is fit to be sent and
its owner allows `limit` attempts. -/
theorem RowCall.spaced [External] (fresh : 0 ≤ start) (lasting : 0 ≤ ttl)
    (spaced : Spaced start ttl limit base now row) {at_ : Timestamp}
    (called : RowCall batch now owner at_ row row') (patient : limit ≤ batch.relay.maxAttempts)
    (fits : ∀ r rest n error, batch.phase = .row r rest n → row.id = r.id →
      r.prepare ≠ .error error)
    (counted : ∀ r ∈ batch.phase.held, row.id = r.id →
      row.attempts = saturateI32 r.attempts) :
    Spaced start ttl limit base now row' := by
  have held := spaced.held owner called.settles.1
  cases called with
  | unprepared phase bad same => exact absurd bad (fits _ _ _ _ phase same)
  | published => exact ⟨by simp [OutboxRow.published], by simp [OutboxRow.published],
      by simp [OutboxRow.published]⟩
  | @exhausted r error n phase spent same =>
    refine ⟨by simp [OutboxRow.parked], by simp [OutboxRow.parked], fun _ => ?_⟩
    have attempts := counted r (by simp [phase, Phase.held]) same
    have enough : limit ≤ row.attempts := by omega
    have reached : pace start ttl limit ≤ pace start ttl row.attempts := pace_mono lasting enough
    omega
  | @rescheduled r error n phase _ _ _ pending =>
    refine ⟨by simp [OutboxRow.rescheduled], fun _ => ?_, ?_⟩
    · have waits : pace start ttl (row.attempts + 1) ≤
          pace start ttl row.attempts + publishBackoff row.attempts := (pace_waits lasting _).1
      change base + pace start ttl (row.attempts + 1) ≤
        max now (now + publishBackoff row.attempts)
      omega
    · simp [OutboxRow.rescheduled, pending]
  | released _ pending =>
    refine ⟨by simp [OutboxRow.released], fun _ => ?_, ?_⟩
    · -- the next attempt has the number this one had
      have same : pace start ttl (max (row.attempts - 1) 0 + 1) ≤
          pace start ttl row.attempts := by
        by_cases counts : 1 ≤ row.attempts
        · exact pace_mono lasting (by omega)
        · rw [pace_low (by omega), pace_low (by omega)]
      change base + pace start ttl (max (row.attempts - 1) 0 + 1) ≤ max now row.availableAt
      omega
    · simp [OutboxRow.released, pending]

section Step

variable [External]

end Step

/- With the defaults of the relay, 127 s. -/
example : pace 0 (300 * second) OutboxPublisher.new.maxAttempts = 127 * second := by decide

section Sample

attribute [local instance] Sample.external

open Sample

end Sample

end FiduciaMessaging
