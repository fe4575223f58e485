import Mathlib.Logic.Function.Basic
import VortexNet.Proxy.TokenBucket

/-!
# Calls on one bucket at once

The atomic operations of `tryAcquire` and `update` in any order: each event is
one load, one attempt of a CAS with the clock reading before it, or one store.
`update_mutex_` lets one `update` in at a time.
-/

namespace VortexNet

open Systems (Reach Always exec)

namespace TokenBucket

inductive Acquire
  | called (need : UInt32)
  | configured (need : UInt32) (cfg : Config)
  | loaded (need : UInt32) (cfg : Config) (cur : State)
  deriving DecidableEq

inductive Update
  | locked (new_capacity new_refill_rate : UInt32)
  | configured (new_capacity new_refill_rate : UInt32) (old_cfg : Config)
  | loaded (new_capacity new_refill_rate : UInt32) (old_cfg : Config) (cur : State)
  /-- `state_` is written and `config_` is not. -/
  | settled (new_capacity new_refill_rate : UInt32)
  deriving DecidableEq

structure Race where
  bucket : TokenBucket
  acquires : Nat → Option Acquire := fun _ => none
  updating : Option Update := none

namespace Race

/-- `spurious` is a failure that `compare_exchange_weak` may report at any time. -/
inductive Event
  | tryAcquire (i : Nat) (need : UInt32)
  | acquireConfig (i : Nat)
  | acquireState (i : Nat)
  | acquireCas (i : Nat) (now : UInt32) (spurious : Bool)
  | update (new_capacity new_refill_rate : UInt32)
  | updateConfig
  | updateState
  | updateCas (now : UInt32) (spurious : Bool)
  | updateStore

def setAcquire (r : Race) (i : Nat) (a : Option Acquire) : Race :=
  { r with acquires := Function.update r.acquires i a }

def setState (r : Race) (next : State) : Race := { r with bucket := { r.bucket with state_ := next } }

def step (r : Race) : Event → Option Race
  | .tryAcquire i need =>
    if r.acquires i = none then
      some (if need = 0 then r else r.setAcquire i (some (.called need)))
    else none
  | .acquireConfig i => match r.acquires i with
    | some (.called need) =>
      let cfg := r.bucket.config_
      some (r.setAcquire i (if need > cfg.capacity then none else some (.configured need cfg)))
    | _ => none
  | .acquireState i => match r.acquires i with
    | some (.configured need cfg) => some (r.setAcquire i (some (.loaded need cfg r.bucket.state_)))
    | _ => none
  | .acquireCas i now spurious => match r.acquires i with
    | some (.loaded need cfg cur) => match settle cfg cur now need with
      | none => some (r.setAcquire i none)
      | some next =>
        if r.bucket.state_ = cur ∧ spurious = false then some ((r.setState next).setAcquire i none)
        else some (r.setAcquire i (some (.loaded need cfg r.bucket.state_)))
    | _ => none
  | .update new_capacity new_refill_rate =>
    if r.updating = none then
      some { r with updating := some (.locked new_capacity new_refill_rate) }
    else none
  | .updateConfig => match r.updating with
    | some (.locked new_capacity new_refill_rate) =>
      some { r with
        updating := some (.configured new_capacity new_refill_rate r.bucket.config_) }
    | _ => none
  | .updateState => match r.updating with
    | some (.configured new_capacity new_refill_rate old_cfg) =>
      some { r with
        updating := some (.loaded new_capacity new_refill_rate old_cfg r.bucket.state_) }
    | _ => none
  | .updateCas now spurious => match r.updating with
    | some (.loaded new_capacity new_refill_rate old_cfg cur) =>
      if r.bucket.state_ = cur ∧ spurious = false then
        some { r.setState (resettle old_cfg cur now new_capacity) with
          updating := some (.settled new_capacity new_refill_rate) }
      else
        some { r with
          updating := some (.loaded new_capacity new_refill_rate old_cfg r.bucket.state_) }
    | _ => none
  | .updateStore => match r.updating with
    | some (.settled new_capacity new_refill_rate) =>
      some { r with
        bucket := { r.bucket with config_ := ⟨new_capacity, new_refill_rate⟩ }
        updating := none }
    | _ => none

-- ---------------------------------------------------------------------------
-- The capacity
-- ---------------------------------------------------------------------------

/-- The capacity that the tokens are to stay within: the new one as soon as an `update` has cut
the tokens to it. -/
def limit (r : Race) : UInt32 := match r.updating with
  | some (.settled new_capacity _) => new_capacity
  | _ => r.bucket.config_.capacity

def NothingDue (cfg : Config) (cur : State) (now : UInt32) : Prop :=
  ¬ (now - cur.timestamp_ms).toUInt64 * cfg.refill_rate.toUInt64 / 1000 > 0

/-- A CAS of `tryAcquire` that succeeds and refills the bucket has a capacity that is in force. -/
def RefillsWithin (r : Race) : Event → Prop
  | .acquireCas i now false => match r.acquires i with
    | some (.loaded _ cfg cur) =>
      r.bucket.state_ = cur → NothingDue cfg cur now ∨ cfg.capacity ≤ r.limit
    | _ => True
  | _ => True

def WithinLimit (r : Race) : Prop := r.bucket.state_.tokens ≤ r.limit

variable {r r' : Race} {e : Event} {cfg old_cfg : Config} {cur next : State}
  {need now cap new_capacity : UInt32}

theorem cut_le (total : UInt64) (cap : UInt32) :
    (if total ≥ cap.toUInt64 then cap else total.toUInt32) ≤ cap := by
  split
  · exact UInt32.le_refl cap
  · rename_i hlt
    rw [ge_iff_le, UInt64.le_iff_toNat_le, UInt32.toNat_toUInt64, Nat.not_le] at hlt
    rw [UInt32.le_iff_toNat_le, UInt64.toNat_toUInt32]
    exact Nat.le_of_lt (Nat.lt_of_le_of_lt (Nat.mod_le _ _) hlt)

theorem settle_from (h : settle cfg cur now need = some next) :
    ∃ tokens, need ≤ tokens ∧ next.tokens = tokens - need ∧
      (NothingDue cfg cur now → tokens = cur.tokens) ∧
      (¬ NothingDue cfg cur now → tokens ≤ cfg.capacity) := by
  simp only [settle] at h
  obtain ⟨hneed, hnext⟩ := Option.ite_none_left_eq_some.mp h
  rw [← Option.some.inj hnext]
  refine ⟨_, UInt32.not_lt.mp hneed, rfl, fun hnot => if_neg hnot, fun hdue => ?_⟩
  rw [if_pos (not_not.mp hdue)]
  exact cut_le _ _

theorem settle_within (h : settle cfg cur now need = some next)
    (hcur : cur.tokens ≤ cap) (hcfg : NothingDue cfg cur now ∨ cfg.capacity ≤ cap) :
    next.tokens ≤ cap := by
  obtain ⟨tokens, hneed, hnext, hsame, hcut⟩ := settle_from h
  have htokens : tokens ≤ cap := by
    by_cases hdue : NothingDue cfg cur now
    · rw [hsame hdue]
      exact hcur
    · exact UInt32.le_trans (hcut hdue) (hcfg.resolve_left hdue)
  have hsub := UInt32.toNat_sub_of_le tokens need hneed
  rw [UInt32.le_iff_toNat_le] at htokens ⊢
  rw [hnext]
  omega

theorem cut_above_le (total : UInt64) (cap : UInt32) :
    (if total > cap.toUInt64 then cap.toUInt64 else total).toUInt32 ≤ cap := by
  split
  · rw [UInt32.toUInt32_toUInt64]
    exact UInt32.le_refl cap
  · rename_i hle
    rw [gt_iff_lt, UInt64.not_lt, UInt64.le_iff_toNat_le, UInt32.toNat_toUInt64] at hle
    rw [UInt32.le_iff_toNat_le, UInt64.toNat_toUInt32]
    exact Nat.le_trans (Nat.mod_le _ _) hle

theorem resettle_within : (resettle old_cfg cur now new_capacity).tokens ≤ new_capacity :=
  cut_above_le _ _

-- ---------------------------------------------------------------------------
-- Runs
-- ---------------------------------------------------------------------------

theorem WithinLimit.congr (h : WithinLimit r) (hs : r'.bucket.state_ = r.bucket.state_)
    (hl : r'.limit = r.limit) : WithinLimit r' := by
  rw [WithinLimit, hs, hl]
  exact h

theorem WithinLimit.step (h : WithinLimit r) (hc : RefillsWithin r e) (hs : step r e = some r') :
    WithinLimit r' := by
  cases e with
  | tryAcquire i need =>
    simp only [Race.step] at hs
    split at hs
    · cases hs
      split
      · exact h
      · exact h.congr rfl rfl
    · cases hs
  | acquireConfig i =>
    simp only [Race.step] at hs
    split at hs
    · cases hs
      exact h.congr rfl rfl
    · cases hs
  | acquireState i =>
    simp only [Race.step] at hs
    split at hs
    · cases hs
      exact h.congr rfl rfl
    · cases hs
  | acquireCas i now spurious =>
    simp only [Race.step] at hs
    split at hs
    · rename_i need cfg cur hi
      split at hs
      · cases hs
        exact h.congr rfl rfl
      · rename_i next hnext
        split at hs
        · rename_i hcas
          obtain ⟨hcur, rfl⟩ := hcas
          cases hs
          simp only [RefillsWithin, hi] at hc
          exact settle_within hnext (show cur.tokens ≤ r.limit from hcur ▸ h) (hc hcur)
        · cases hs
          exact h.congr rfl rfl
    · cases hs
  | update new_capacity new_refill_rate =>
    simp only [Race.step] at hs
    split at hs
    · rename_i hnone
      cases hs
      exact h.congr rfl (by simp [limit, hnone])
    · cases hs
  | updateConfig =>
    simp only [Race.step] at hs
    split at hs
    · rename_i hlocked
      cases hs
      exact h.congr rfl (by simp [limit, hlocked])
    · cases hs
  | updateState =>
    simp only [Race.step] at hs
    split at hs
    · rename_i hconfigured
      cases hs
      exact h.congr rfl (by simp [limit, hconfigured])
    · cases hs
  | updateCas now spurious =>
    simp only [Race.step] at hs
    split at hs
    · rename_i hloaded
      split at hs
      · cases hs
        exact resettle_within
      · cases hs
        exact h.congr rfl (by simp [limit, hloaded])
    · cases hs
  | updateStore =>
    simp only [Race.step] at hs
    split at hs
    · rename_i hsettled
      cases hs
      exact h.congr rfl (by simp [limit, hsettled])
    · cases hs

/-- The tokens are at most the capacity whenever no `update` is in progress. -/
theorem tokens_within_capacity {capacity rate : UInt32}
    (h : Reach step RefillsWithin { bucket := init capacity rate } r) (hidle : r.updating = none) :
    r.bucket.state_.tokens ≤ r.bucket.config_.capacity := by
  have hwithin := h.invariant (I := WithinLimit) (UInt32.le_refl capacity)
    fun r e r' hr hc hs => hr.step hc hs
  rw [WithinLimit, limit, hidle] at hwithin
  exact hwithin

instance (cfg : Config) (cur : State) (now : UInt32) : Decidable (NothingDue cfg cur now) :=
  inferInstanceAs (Decidable (¬ _))

instance (r : Race) : DecidablePred (RefillsWithin r)
  | .acquireCas i now false => match h : r.acquires i with
    | some (.loaded _ cfg cur) =>
      decidable_of_iff (r.bucket.state_ = cur → NothingDue cfg cur now ∨ cfg.capacity ≤ r.limit)
        (by simp [RefillsWithin, h])
    | some (.called _) => .isTrue (by simp [RefillsWithin, h])
    | some (.configured _ _) => .isTrue (by simp [RefillsWithin, h])
    | none => .isTrue (by simp [RefillsWithin, h])
  | .acquireCas _ _ true => .isTrue trivial
  | .tryAcquire _ _ | .acquireConfig _ | .acquireState _ | .update _ _ | .updateConfig
  | .updateState | .updateCas _ _ | .updateStore => .isTrue trivial

/-- Two calls and an `update` to a larger bucket, each in the other's way once. -/
theorem tokens_within_capacity_run : ∃ r, exec step RefillsWithin { bucket := init 100 1000 }
      [.tryAcquire 0 30, .acquireConfig 0, .update 200 500, .updateConfig, .updateState,
        .acquireState 0, .acquireCas 0 5 false, .updateCas 7 false, .updateCas 9 false,
        .tryAcquire 1 10, .acquireConfig 1, .acquireState 1, .updateStore,
        .acquireCas 1 40 false] = some r ∧
    r.bucket = ⟨⟨200, 500⟩, ⟨40, 90⟩⟩ ∧ r.bucket.state_.tokens ≤ r.bucket.config_.capacity := by
  obtain ⟨r, hr, hbucket, hidle⟩ : ∃ r, exec step RefillsWithin { bucket := init 100 1000 }
      [.tryAcquire 0 30, .acquireConfig 0, .update 200 500, .updateConfig, .updateState,
        .acquireState 0, .acquireCas 0 5 false, .updateCas 7 false, .updateCas 9 false,
        .tryAcquire 1 10, .acquireConfig 1, .acquireState 1, .updateStore,
        .acquireCas 1 40 false] = some r ∧
      r.bucket = ⟨⟨200, 500⟩, ⟨40, 90⟩⟩ ∧ r.updating = none := ⟨_, rfl, by decide, rfl⟩
  exact ⟨r, hr, hbucket, tokens_within_capacity (.of_exec hr) hidle⟩

/-- A call that has loaded the configuration, an `update` to a smaller bucket, and the rest of the
call: it refills the small bucket to the large capacity. -/
theorem not_tokens_within_capacity : ¬ ∀ capacity rate r,
    Reach step Always { bucket := init capacity rate } r → r.updating = none →
      r.bucket.state_.tokens ≤ r.bucket.config_.capacity := by
  intro h
  have hrun : ∃ r, exec step Always { bucket := init 100 1000 }
      [.tryAcquire 0 1, .acquireConfig 0, .update 10 1000, .updateConfig, .updateState,
        .updateCas 0 false, .updateStore, .acquireState 0, .acquireCas 0 1000 false] = some r ∧
      r.bucket = ⟨⟨10, 1000⟩, ⟨1000, 99⟩⟩ ∧ r.updating = none := ⟨_, rfl, by decide, rfl⟩
  obtain ⟨r, hr, hbucket, hidle⟩ := hrun
  have hle := h 100 1000 r (.of_exec hr) hidle
  rw [hbucket] at hle
  exact absurd hle (by decide)

end Race

end TokenBucket

end VortexNet
