/- **The attempts of one request to S3.** -/

import OxiStore.Cloud.S3

namespace OxiStore.S3.S3BlobStore

open StepProg

def retryError : Except BlobError InternalResponse → Option BlobError
  | .ok resp =>
      if shouldRetryStatus resp.status then
        some (.other ("S3 HTTP " ++ toString resp.status.toNat ++ " (retryable)"))
      else none
  | .error error => some error

variable {S : Type} (store : S3BlobStore S) (once : BlobCall S InternalResponse) (s : S)

def tryAfter (attempt : ℕ) (s : S) : Except BlobError InternalResponse × S :=
  once.exec (if attempt > 0 then store.sleep (backoffDelay store.config.retryConfig (attempt - 1)) s else s)

def tried : ℕ → Option BlobError × S
  | 0 => (none, s)
  | attempt + 1 =>
      let outcome := store.tryAfter once attempt (tried attempt).2
      (retryError outcome.1, outcome.2)

def Settles (count : ℕ) (outcome : Except BlobError InternalResponse × S) : Prop :=
  let tries := store.tried once s
  (∃ attempt < count, (∀ before < attempt, (tries (before + 1)).1.isSome) ∧ (tries (attempt + 1)).1 = none ∧
    outcome = store.tryAfter once attempt (tries attempt).2) ∨
  (∀ before < count, (tries (before + 1)).1.isSome) ∧
    outcome = (.error (.retryExhausted store.config.retryConfig.maxAttempts
      (((tries count).1.getD (.other "unknown error")).display store.ioText)), (tries count).2)

variable {store s} {method : Cloud.HttpMethod} {url : String} {body : ByteString.Bytes}
  {headers : List (String × String)}

theorem exec_sendLoop_succ (left attempt : ℕ) (lastError : Option BlobError) (s : S) :
    let outcome := store.tryAfter (store.sendOnce method url body headers) attempt s
    (store.sendLoop method url body headers (left + 1) attempt lastError).exec s =
      (retryError outcome.1).elim outcome fun error =>
        (store.sendLoop method url body headers left (attempt + 1) (some error)).exec outcome.2 := by
  intro outcome
  have same : (store.sendOnce method url body headers).exec _ = outcome := rfl
  rw [sendLoop]
  -- The wait cannot fail, so the attempt starts from the world that it leaves.
  split_ifs at same ⊢
  on_goal 1 => rw [Fallible.exec_bind, Fallible.exec_atomic]
  all_goals
    simp only [Fallible.exec_attempt_bind, same]
    rcases outcome with ⟨error | resp, s'⟩
    · rfl
    · dsimp only [retryError]
      split_ifs <;> rfl

theorem sendLoop_settles {left attempt count : ℕ} (all : attempt + left = count) :
    let tries := store.tried (store.sendOnce method url body headers) s
    (∀ before < attempt, (tries (before + 1)).1.isSome) →
    store.Settles (store.sendOnce method url body headers) s count
      ((store.sendLoop method url body headers left attempt (tries attempt).1).exec (tries attempt).2) := by
  intro tries early
  induction left generalizing attempt with
  | zero =>
    subst all
    exact .inr ⟨early, rfl⟩
  | succ left ih =>
    rw [exec_sendLoop_succ]
    change store.Settles _ s count ((tries (attempt + 1)).1.elim _ _)
    cases fails : (tries (attempt + 1)).1 with
    | none => exact .inl ⟨attempt, by omega, early, fails, rfl⟩
    | some error =>
      rw [Option.elim_some, ← fails]
      refine ih (by omega) fun before less => ?_
      rcases Nat.lt_succ_iff_lt_or_eq.mp less with earlier | rfl
      · exact early before earlier
      · simp [fails]

theorem send_settles :
    store.Settles (store.sendOnce method url body headers) s store.config.retryConfig.maxAttempts.toNat
        ((store.send method url body headers).exec s) ∧
      ∀ config attempt, backoffDelay config attempt ≤ config.maxDelayMs := by
  refine ⟨sendLoop_settles (Nat.zero_add _) fun _ early => by omega, fun config attempt => ?_⟩
  rw [UInt64.le_iff_toNat_le, backoffDelay, UInt64.toNat_ofNat']
  refine (Nat.mod_le _ _).trans ?_
  split <;> omega

end OxiStore.S3.S3BlobStore
