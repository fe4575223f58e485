import Mathlib.Data.Nat.ModEq
import VortexNet.Proxy.RateBound
import VortexNet.Proxy.TokenRace

/-!
# What `availableTokens` says

`tryAcquire`, `availableTokens` and `update` each settle the elapsed time for
themselves. `heldAfter` is the one count all three agree on while the tokens
are within the capacity. A settlement of `tryAcquire` charges no more time than
its tokens are worth, so no call erases refill; `update` charges all of it, and
what is left over a whole number of tokens is dropped.
-/

namespace VortexNet.TokenBucket

open Systems (Reach Always exec)

variable {b b' : TokenBucket} {cfg : Config} {cur : State} {need : UInt32}
  {rate elapsed ts now s t : Nat} {calls : List Call} {times : List Nat}

-- ---------------------------------------------------------------------------
-- The count
-- ---------------------------------------------------------------------------

def heldAfter (b : TokenBucket) (elapsed : Nat) : Nat :=
  min b.config_.capacity.toNat
    (b.state_.tokens.toNat + producedBy b.config_.refill_rate.toNat elapsed)

theorem available_toNat (cfg : Config) (cur : State) (now : UInt32) :
    (available cfg cur now).toNat = min cfg.capacity.toNat
      (cur.tokens.toNat + producedBy cfg.refill_rate.toNat (now - cur.timestamp_ms).toNat) := by
  have hlt := producedBy_lt cfg.refill_rate.toNat_lt (now - cur.timestamp_ms).toNat_lt
  rw [← produced_eq] at hlt ⊢
  exact cap_toNat _ _ _ hlt

theorem availableTokens_toNat (hts : nowMs ts = b.state_.timestamp_ms) (h : ts ≤ now)
    (hw : now - ts < 2 ^ 32) :
    (b.availableTokens (nowMs now)).toNat = b.heldAfter (now - ts) := by
  rw [availableTokens, available_toNat, ← hts, nowMs_sub h hw]
  rfl

theorem nowMs_reading (ts now : UInt32) : nowMs (ts.toNat + (now - ts).toNat) = now := by
  rw [nowMs_add, nowMs, UInt32.ofNat_toNat, UInt32.ofNat_toNat, UInt32.add_comm,
    UInt32.sub_add_cancel]

/-- `update` cuts at the old capacity, then at the new one. -/
theorem resettle_tokens (cfg : Config) (cur : State) (now cap : UInt32) :
    (resettle cfg cur now cap).tokens = min cap (available cfg cur now) := by
  have hlt := producedBy_lt cfg.refill_rate.toNat_lt (now - cur.timestamp_ms).toNat_lt
  rw [← produced_eq] at hlt
  have ht := cur.tokens.toNat_lt
  have hcap := cap.toNat_lt
  have hold := cfg.capacity.toNat_lt
  apply UInt32.toNat_inj.mp
  rw [UInt32.toNat_min, available_toNat, ← produced_eq]
  unfold resettle
  set produced := (now - cur.timestamp_ms).toUInt64 * cfg.refill_rate.toUInt64 / 1000
  have hsum : (cur.tokens.toUInt64 + produced).toNat = cur.tokens.toNat + produced.toNat := by
    rw [UInt64.toNat_add, UInt32.toNat_toUInt64]
    omega
  simp only [gt_iff_lt, UInt64.lt_iff_toNat_lt, UInt64.toNat_toUInt32, apply_ite UInt64.toNat,
    UInt32.toNat_toUInt64, hsum]
  split <;> split <;> omega

theorem available_settled (cfg : Config) (tokens now : UInt32) :
    available cfg ⟨now, tokens⟩ now = min cfg.capacity tokens := by
  apply UInt32.toNat_inj.mp
  rw [available_toNat, UInt32.toNat_min]
  simp [producedBy]

-- ---------------------------------------------------------------------------
-- Agreement
-- ---------------------------------------------------------------------------

theorem tryAcquire_within (h : b.state_.tokens ≤ b.config_.capacity) (now need : UInt32) :
    (b.tryAcquire now need).2.state_.tokens ≤ (b.tryAcquire now need).2.config_.capacity := by
  unfold tryAcquire
  split
  · exact h
  split
  · exact h
  split
  · exact h
  · rename_i next hnext
    exact Race.settle_within hnext h (.inr (UInt32.le_refl _))

/-- No history leaves a bucket with more tokens than its capacity. -/
theorem Reachable.within (h : Reachable b) : b.state_.tokens ≤ b.config_.capacity := by
  obtain ⟨capacity, rate, clock, hreach⟩ := h
  refine hreach.invariant (I := fun c => c.bucket.state_.tokens ≤ c.bucket.config_.capacity)
    (UInt32.le_refl capacity) ?_
  rintro c ⟨now, op⟩ c' hin - hstep
  simp only [Clocked.step] at hstep
  split at hstep
  · cases op with
    | tryAcquire need =>
      cases hstep
      exact tryAcquire_within hin _ need
    | update cap rate =>
      cases hstep
      exact Race.resettle_within
  · cases hstep

theorem settle_eq_none_iff (hin : cur.tokens ≤ cfg.capacity) (hneed : need ≤ cfg.capacity)
    (now : UInt32) : settle cfg cur now need = none ↔ ¬ need ≤ available cfg cur now := by
  have hw : cur.timestamp_ms.toNat + (now - cur.timestamp_ms).toNat - cur.timestamp_ms.toNat <
      2 ^ 32 := by
    rw [Nat.add_sub_cancel_left]
    exact UInt32.toNat_lt _
  have hsettle : settle cfg cur
      (nowMs (cur.timestamp_ms.toNat + (now - cur.timestamp_ms).toNat)) need = _ :=
    settle_eq (UInt32.ofNat_toNat (x := cur.timestamp_ms)) (Nat.le_add_right _ _) hw
  rw [nowMs_reading, Nat.add_sub_cancel_left] at hsettle
  rw [UInt32.le_iff_toNat_le] at hin hneed ⊢
  rw [hsettle, available_toNat, ite_eq_left_iff]
  simp only [reduceCtorEq, imp_false, not_not, refilled]
  split <;> omega

/-- A call is granted exactly what `availableTokens` announces, a refused call changes
nothing, and an `update` cuts what is announced to the new capacity. -/
theorem announces (h : Reachable b) (now need new_capacity new_refill_rate : UInt32) :
    ((b.tryAcquire now need).1 = true ↔ need = 0 ∨ need ≤ b.availableTokens now) ∧
    ((b.tryAcquire now need).1 = false → (b.tryAcquire now need).2 = b) ∧
    (b.update now new_capacity new_refill_rate).availableTokens now =
      min new_capacity (b.availableTokens now) := by
  refine ⟨?_, ?_, ?_⟩
  · have hcap : b.availableTokens now ≤ b.config_.capacity := by
      rw [UInt32.le_iff_toNat_le, availableTokens, available_toNat]
      exact Nat.min_le_left _ _
    unfold tryAcquire
    split
    · rename_i h0
      simp [h0]
    rename_i h0
    split
    · rename_i hgt
      have hnot : ¬ need ≤ b.availableTokens now := fun hle =>
        absurd (UInt32.le_trans hle hcap) (UInt32.not_le.mpr hgt)
      simp [h0, hnot]
    · rename_i hle
      have hnone := settle_eq_none_iff h.within (UInt32.not_lt.mp hle) now
      rw [availableTokens]
      split
      · rename_i hs
        simp [h0, hnone.mp hs]
      · rename_i next hs
        have hnot : need ≤ available b.config_ b.state_ now :=
          not_not.mp (hnone.not.mp (by simp [hs]))
        simp [hnot]
  · unfold tryAcquire
    split
    · simp
    split
    · simp
    split <;> simp
  · simp only [update, availableTokens]
    rw [← resettle_tokens]
    have hset : resettle b.config_ b.state_ now new_capacity =
        ⟨now, (resettle b.config_ b.state_ now new_capacity).tokens⟩ := rfl
    rw [hset, available_settled, resettle_tokens]
    apply UInt32.toNat_inj.mp
    simp only [UInt32.toNat_min]
    omega

/-- A bucket of 100 at 10 a second that is drained and cut to 50: at 1500 ms it announces
28 tokens, of which one call takes 20. -/
theorem announces_run : ∃ b, Reachable b ∧ b.availableTokens 1500 = 28 ∧
    ((b.tryAcquire 1500 20).1 = true ↔ (20 : UInt32) = 0 ∨ 20 ≤ b.availableTokens 1500) ∧
    ((b.tryAcquire 1500 30).1 = false → (b.tryAcquire 1500 30).2 = b) ∧
    (b.update 1500 25 5).availableTokens 1500 = min 25 (b.availableTokens 1500) := by
  have hrun : exec Clocked.step Always ⟨init 100 10, 0⟩
      [(1, .tryAcquire 85), (700, .update 50 10), (800, .tryAcquire 2)] =
      some ⟨⟨⟨50, 10⟩, ⟨800, 21⟩⟩, 800⟩ := rfl
  have hreach : Reachable ⟨⟨50, 10⟩, ⟨800, 21⟩⟩ := ⟨100, 10, 800, .of_exec hrun⟩
  exact ⟨_, hreach, by decide +kernel, (announces hreach 1500 20 25 5).1,
    (announces hreach 1500 30 25 5).2.1, (announces hreach 1500 20 25 5).2.2⟩

-- ---------------------------------------------------------------------------
-- No call erases refill
-- ---------------------------------------------------------------------------

theorem producedBy_add_le (rate a c : Nat) :
    producedBy rate a + producedBy rate c ≤ producedBy rate (a + c) := by
  unfold producedBy
  rw [Nat.add_mul]
  exact Nat.div_add_div_le_add_div

theorem producedBy_charged_add_le (rate elapsed later : Nat) :
    producedBy rate (charged rate elapsed + later) ≤
      producedBy rate elapsed + producedBy rate later := by
  have hc : charged rate elapsed * rate ≤ producedBy rate elapsed * 1000 := by
    unfold charged
    exact Nat.div_mul_le_self _ _
  calc producedBy rate (charged rate elapsed + later)
      ≤ (producedBy rate elapsed * 1000 + later * rate) / 1000 := by
        unfold producedBy at hc ⊢
        rw [Nat.add_mul]
        exact Nat.div_le_div_right (Nat.add_le_add_right hc _)
    _ = producedBy rate elapsed + producedBy rate later := by
        rw [Nat.add_comm, Nat.add_mul_div_right _ _ (by decide), Nat.add_comm]
        rfl

/-- The bucket after the calls. -/
def acquireAll (b : TokenBucket) (calls : List Call) : TokenBucket :=
  calls.foldl (fun b c => (b.tryAcquire (nowMs c.now) c.need).2) b

/-- Every clock value, `t` at the end included, is less than `2 ^ 32` ms after the timestamp it
is read against; `ts` is the time in milliseconds that the timestamp of the bucket stands for. -/
def Fresh : TokenBucket → Nat → List Call → Nat → Prop
  | _, ts, [], t => t - ts < 2 ^ 32
  | b, ts, c :: cs, t =>
    let b' := (b.tryAcquire (nowMs c.now) c.need).2
    c.now - ts < 2 ^ 32 ∧
      Fresh b' (ts + (b'.state_.timestamp_ms - b.state_.timestamp_ms).toNat) cs t

instance Fresh.decidable : (b : TokenBucket) → (ts : Nat) → (calls : List Call) → (t : Nat) →
    Decidable (Fresh b ts calls t)
  | _, _, [], _ => inferInstanceAs (Decidable (_ < _))
  | _, _, _ :: cs, t => @instDecidableAnd _ _ inferInstance (Fresh.decidable _ _ cs t)

theorem heldAfter_le_settled (hcfg : b'.config_ = b.config_)
    (hneed : need.toNat + b'.state_.tokens.toNat =
      refilled b.config_ b.state_.tokens.toNat elapsed) (later : Nat) :
    b.heldAfter (charged b.config_.refill_rate.toNat elapsed + later) ≤
      b'.heldAfter later + need.toNat := by
  have hcharge := producedBy_charged_add_le b.config_.refill_rate.toNat elapsed later
  unfold heldAfter
  rw [hcfg]
  unfold refilled at hneed
  split at hneed <;> omega

/-- Over any calls, what is left at the end and what was granted make up for what the bucket
would have held without them. -/
theorem heldAfter_le (hts : nowMs ts = b.state_.timestamp_ms) (hs : ts ≤ s)
    (ho : Ordered s calls t) (hf : Fresh b ts calls t) :
    b.heldAfter (t - ts) ≤
      ((b.acquireAll calls).availableTokens (nowMs t)).toNat + b.granted calls := by
  induction calls generalizing b ts s with
  | nil =>
    have hst : s ≤ t := ho
    exact (availableTokens_toNat hts (hs.trans hst) hf).ge
  | cons c cs ih =>
    obtain ⟨hle, ho⟩ := ho
    obtain ⟨hw, hf⟩ := hf
    have hct := ho.le
    simp only [acquireAll, List.foldl_cons, granted]
    rcases tryAcquire_cases c.need hts (hs.trans hle) hw with
      ⟨hzero, hcall⟩ | ⟨-, hcall⟩ | ⟨b', hcall, hcfg, -, hts', hneed⟩
    · simp only [hcall, UInt32.sub_self, UInt32.toNat_zero, Nat.add_zero] at hf ⊢
      exact (ih hts (hs.trans hle) ho hf).trans (by simp only [acquireAll]; omega)
    · simp only [hcall, UInt32.sub_self, UInt32.toNat_zero, Nat.add_zero] at hf ⊢
      simpa [acquireAll] using ih hts (hs.trans hle) ho hf
    · have hcharge := charged_le b.config_.refill_rate.toNat (c.now - ts)
      have hmoved : (b'.state_.timestamp_ms - b.state_.timestamp_ms).toNat =
          charged b.config_.refill_rate.toNat (c.now - ts) := by
        rw [← hts', ← hts, nowMs_sub (by omega) (by omega)]
        omega
      simp only [hcall, hmoved, ↓reduceIte] at hf ⊢
      have hrest := ih hts' (by omega) ho hf
      have hstep := heldAfter_le_settled hcfg hneed
        (t - (ts + charged b.config_.refill_rate.toNat (c.now - ts)))
      have hsplit : charged b.config_.refill_rate.toNat (c.now - ts) +
          (t - (ts + charged b.config_.refill_rate.toNat (c.now - ts))) = t - ts := by omega
      rw [hsplit] at hstep
      simp only [acquireAll] at hrest
      omega

theorem Fresh.first (hs : ts ≤ s) (ho : Ordered s calls t) (hf : Fresh b ts calls t) :
    s - ts < 2 ^ 32 := by
  cases calls with
  | nil =>
    have hst : s ≤ t := ho
    have hw : t - ts < 2 ^ 32 := hf
    omega
  | cons c cs =>
    have hsc := ho.1
    have hw := hf.1
    omega

/-- Whatever is called between `s` and `t`, the bucket holds or has granted the refill of that
time on top of what it held, up to its capacity. -/
theorem refill_kept (hts : nowMs ts = b.state_.timestamp_ms) (hs : ts ≤ s)
    (ho : Ordered s calls t) (hf : Fresh b ts calls t) :
    min b.config_.capacity.toNat
        ((b.availableTokens (nowMs s)).toNat + b.config_.refill_rate.toNat * (t - s) / 1000) ≤
      ((b.acquireAll calls).availableTokens (nowMs t)).toNat + b.granted calls := by
  have hst := ho.le
  have hall := heldAfter_le hts hs ho hf
  have hadd := producedBy_add_le b.config_.refill_rate.toNat (s - ts) (t - s)
  have hsum : s - ts + (t - s) = t - ts := by omega
  have hrate : b.config_.refill_rate.toNat * (t - s) / 1000 =
      producedBy b.config_.refill_rate.toNat (t - s) := by
    rw [Nat.mul_comm]
    rfl
  rw [hsum] at hadd
  rw [availableTokens_toNat hts hs (hf.first hs ho), hrate]
  refine le_trans ?_ hall
  unfold heldAfter
  omega

/-- Four calls at uneven milliseconds, the second of them refused. -/
theorem refill_kept_run :
    min 50 (((⟨⟨50, 10⟩, ⟨800, 21⟩⟩ : TokenBucket).availableTokens (nowMs 850)).toNat +
        10 * (2500 - 850) / 1000) ≤
      ((acquireAll ⟨⟨50, 10⟩, ⟨800, 21⟩⟩
        [⟨900, 5⟩, ⟨1050, 40⟩, ⟨1234, 17⟩, ⟨1299, 1⟩]).availableTokens (nowMs 2500)).toNat +
      granted ⟨⟨50, 10⟩, ⟨800, 21⟩⟩ [⟨900, 5⟩, ⟨1050, 40⟩, ⟨1234, 17⟩, ⟨1299, 1⟩] :=
  refill_kept (b := ⟨⟨50, 10⟩, ⟨800, 21⟩⟩) (show nowMs 800 = _ from rfl) (by decide)
    (by simp [Ordered]) (by decide +kernel)

-- ---------------------------------------------------------------------------
-- Updates to the configuration in force
-- ---------------------------------------------------------------------------

/-- Updates at these clock values, each to what `config_` holds. -/
def reapply (b : TokenBucket) (times : List Nat) : TokenBucket :=
  times.foldl (fun b now => b.update (nowMs now) b.config_.capacity b.config_.refill_rate) b

/-- Updates to the configuration in force change no later reading; `ts` is the time in
milliseconds that the timestamp stands for, and no reading is `2 ^ 32` ms after it. -/
def ReappliesFreely (cfg : Config) : Prop :=
  ∀ (b : TokenBucket) (ts : Nat) (times : List Nat) (t : Nat), Reachable b → b.config_ = cfg →
    nowMs ts = b.state_.timestamp_ms → (ts :: (times ++ [t])).Pairwise (· ≤ ·) →
    t - ts < 2 ^ 32 → (b.reapply times).availableTokens (nowMs t) = b.availableTokens (nowMs t)

/-- Every millisecond makes a whole number of tokens, or the whole tokens of the milliseconds
alone fill the bucket before the parts left over come to a token. -/
def WholeRefill (cfg : Config) : Prop :=
  1000 ∣ cfg.refill_rate.toNat ∨
    cfg.capacity.toNat ≤ cfg.refill_rate.toNat / 1000 *
      ((1000 + cfg.refill_rate.toNat % 1000 - 1) / (cfg.refill_rate.toNat % 1000))

instance (cfg : Config) : Decidable (WholeRefill cfg) := inferInstanceAs (Decidable (_ ∨ _))

/-- The time since the timestamp is worth a whole number of tokens, or the bucket is full. -/
def NothingDropped (b : TokenBucket) (elapsed : Nat) : Prop :=
  1000 ∣ elapsed * b.config_.refill_rate.toNat ∨
    b.config_.capacity.toNat ≤
      b.state_.tokens.toNat + producedBy b.config_.refill_rate.toNat elapsed

/-- `P` holds of the bucket and of the time since its timestamp at each of the updates. -/
def EachUpdate (P : TokenBucket → Nat → Prop) : TokenBucket → Nat → List Nat → Prop
  | _, _, [] => True
  | b, ts, now :: times => P b (now - ts) ∧
    EachUpdate P (b.update (nowMs now) b.config_.capacity b.config_.refill_rate) now times

def Neutral (b : TokenBucket) (elapsed : Nat) : Prop :=
  ∀ later, min b.config_.capacity.toNat
      (b.heldAfter elapsed + producedBy b.config_.refill_rate.toNat later) =
    b.heldAfter (elapsed + later)

theorem NothingDropped.neutral (h : NothingDropped b elapsed) : Neutral b elapsed := by
  intro later
  have hadd := producedBy_add_le b.config_.refill_rate.toNat elapsed later
  unfold heldAfter
  rcases h with hdvd | hfull
  · have hsum : producedBy b.config_.refill_rate.toNat (elapsed + later) =
        producedBy b.config_.refill_rate.toNat elapsed +
          producedBy b.config_.refill_rate.toNat later := by
      unfold producedBy
      rw [Nat.add_mul, Nat.add_div_of_dvd_right hdvd]
    omega
  · omega

/-- The whole tokens of each millisecond, and what their remainders come to. -/
theorem producedBy_eq (rate elapsed : Nat) :
    producedBy rate elapsed = elapsed * (rate / 1000) + elapsed * (rate % 1000) / 1000 := by
  have hrate : elapsed * rate = 1000 * (elapsed * (rate / 1000)) + elapsed * (rate % 1000) := by
    conv_lhs => rw [← Nat.div_add_mod rate 1000]
    ring
  rw [producedBy, hrate, Nat.mul_add_div (by decide)]

theorem WholeRefill.neutral (h : WholeRefill b.config_) (elapsed : Nat) : Neutral b elapsed := by
  rcases h with hdvd | hcap
  · exact NothingDropped.neutral (.inl (Dvd.dvd.mul_left hdvd _))
  intro later
  unfold heldAfter
  have hadd := producedBy_add_le b.config_.refill_rate.toNat elapsed later
  have hsplit : (elapsed + later) * (b.config_.refill_rate.toNat / 1000) =
      elapsed * (b.config_.refill_rate.toNat / 1000) +
        later * (b.config_.refill_rate.toNat / 1000) := Nat.add_mul _ _ _
  have he := producedBy_eq b.config_.refill_rate.toNat elapsed
  have hl := producedBy_eq b.config_.refill_rate.toNat later
  have hel := producedBy_eq b.config_.refill_rate.toNat (elapsed + later)
  set whole := b.config_.refill_rate.toNat / 1000
  set part := b.config_.refill_rate.toNat % 1000
  by_cases hfull : (1000 + part - 1) / part ≤ elapsed + later
  · have hwhole := Nat.mul_le_mul_right whole hfull
    rw [Nat.mul_comm] at hwhole
    omega
  · have hsmall : (elapsed + later) * part < 1000 := by
      have hlt := Nat.not_le.mp hfull
      by_contra hge
      have hpart : 0 < part := Nat.pos_of_ne_zero fun h0 => by simp [h0] at hlt
      have hle : (1000 + part - 1) / part ≤ elapsed + later := by
        rw [Nat.div_le_iff_le_mul_add_pred hpart, Nat.mul_comm]
        omega
      omega
    have hnone : (elapsed + later) * part / 1000 = 0 := Nat.div_eq_of_lt hsmall
    omega

theorem heldAfter_le_capacity (b : TokenBucket) (elapsed : Nat) :
    b.heldAfter elapsed ≤ b.config_.capacity.toNat :=
  Nat.min_le_left _ _

theorem update_tokens (hts : nowMs ts = b.state_.timestamp_ms) (h : ts ≤ now)
    (hw : now - ts < 2 ^ 32) (cap rate : UInt32) :
    (b.update (nowMs now) cap rate).state_.tokens.toNat =
      min cap.toNat (b.heldAfter (now - ts)) := by
  rw [← availableTokens_toNat hts h hw, ← UInt32.toNat_min]
  exact congrArg UInt32.toNat (resettle_tokens _ _ _ _)

theorem reapply_available (hts : nowMs ts = b.state_.timestamp_ms)
    (hsorted : (ts :: (times ++ [t])).Pairwise (· ≤ ·)) (hw : t - ts < 2 ^ 32)
    (heach : EachUpdate Neutral b ts times) :
    (b.reapply times).availableTokens (nowMs t) = b.availableTokens (nowMs t) := by
  induction times generalizing b ts with
  | nil => rfl
  | cons now times ih =>
    obtain ⟨hneutral, heach⟩ := heach
    obtain ⟨hfirst, hrest⟩ := List.pairwise_cons.mp hsorted
    have hnow : ts ≤ now := hfirst now (by simp)
    have hnt : now ≤ t := (List.pairwise_cons.mp hrest).1 t (by simp)
    have hheld := heldAfter_le_capacity b (now - ts)
    have hlater := hneutral (t - now)
    have hsum : now - ts + (t - now) = t - ts := by omega
    rw [hsum] at hlater
    rw [reapply, List.foldl_cons]
    refine (ih rfl hrest (by omega) heach).trans (UInt32.toNat_inj.mp ?_)
    rw [availableTokens_toNat rfl hnt (by omega),
      availableTokens_toNat hts (hnow.trans hnt) hw, ← hlater, heldAfter,
      update_tokens hts hnow (by omega), Nat.min_eq_right hheld]
    rfl

theorem EachUpdate.mono {P Q : TokenBucket → Nat → Prop}
    (himp : ∀ b' : TokenBucket, b'.config_ = b.config_ → ∀ elapsed, P b' elapsed → Q b' elapsed)
    (h : EachUpdate P b ts times) : EachUpdate Q b ts times := by
  induction times generalizing b ts with
  | nil => trivial
  | cons now times ih => exact ⟨himp b rfl _ h.1, ih (fun b' hcfg => himp b' hcfg) h.2⟩

theorem EachUpdate.trivial : EachUpdate (fun _ _ => True) b ts times := by
  induction times generalizing b ts with
  | nil => exact True.intro
  | cons now times ih => exact ⟨True.intro, ih⟩

/-- A millisecond short of the part that makes a token, and one more: an update in between loses
the token. -/
theorem wholeRefill_of_reappliesFreely (h : ReappliesFreely cfg) : WholeRefill cfg := by
  by_contra hnot
  simp only [WholeRefill, not_or, Nat.not_le] at hnot
  obtain ⟨hdvd, hcap⟩ := hnot
  set r := cfg.refill_rate.toNat with hr
  set part := r % 1000 with hpart
  set n := (1000 + part - 1) / part with hn
  have hpos : 0 < part := Nat.pos_of_ne_zero fun h0 => hdvd (Nat.dvd_of_mod_eq_zero h0)
  have hlt : part < 1000 := Nat.mod_lt _ (by decide)
  have hcap0 : cfg.capacity ≠ 0 := fun h0 => by simp [h0] at hcap
  have hdm := Nat.div_add_mod (1000 + part - 1) part
  have hmod := Nat.mod_lt (1000 + part - 1) hpos
  rw [← hn] at hdm
  have hn2 : 2 ≤ n := by
    rw [hn, Nat.le_div_iff_mul_le hpos]
    omega
  have hn1000 : n ≤ 1000 := by
    rw [hn, Nat.div_le_iff_le_mul_add_pred hpos]
    have := Nat.le_mul_of_pos_left 999 hpos
    omega
  have hbefore : (n - 1) * part / 1000 = 0 := by
    apply Nat.div_eq_of_lt
    rw [Nat.sub_mul, Nat.mul_comm]
    omega
  have hafter : n * part / 1000 = 1 := by
    rw [Nat.mul_comm]
    omega
  have hone : part / 1000 = 0 := Nat.div_eq_of_lt hlt
  have hb : Reachable ⟨cfg, ⟨0, 0⟩⟩ := by
    refine ⟨cfg.capacity, cfg.refill_rate, 0, .single (e := (0, .tryAcquire cfg.capacity)) ?_⟩
    simp [Clocked.step, tryAcquire_init hcap0]
  have heq := congrArg UInt32.toNat (h _ 0 [n - 1] n hb rfl rfl (by simp) (by omega))
  rw [reapply, List.foldl_cons, List.foldl_nil, availableTokens_toNat rfl (by omega) (by omega),
    availableTokens_toNat (b := ⟨cfg, ⟨0, 0⟩⟩) (show nowMs 0 = _ from rfl) (by omega) (by omega),
    heldAfter, update_tokens (b := ⟨cfg, ⟨0, 0⟩⟩) (show nowMs 0 = _ from rfl) (by omega)
      (by omega)] at heq
  have hsum : n - 1 + 1 = n := by omega
  have hwhole : (n - 1) * (r / 1000) + r / 1000 = n * (r / 1000) := by
    rw [← Nat.succ_mul, Nat.succ_eq_add_one, hsum]
  simp only [heldAfter, update, ← hr, producedBy_eq, ← hpart, hbefore, hafter, hone,
    UInt32.toNat_zero, Nat.sub_zero, show n - (n - 1) = 1 by omega, Nat.one_mul] at heq
  rw [Nat.mul_comm] at hcap
  omega

/-- Re-applying a configuration is free of effect for the configurations whose refill is whole,
and for any configuration in the runs where each update drops nothing. -/
theorem reapply_iff (cfg : Config) :
    (ReappliesFreely cfg ↔ WholeRefill cfg) ∧
    ∀ (b : TokenBucket) (ts : Nat) (times : List Nat) (t : Nat), b.config_ = cfg →
      nowMs ts = b.state_.timestamp_ms → (ts :: (times ++ [t])).Pairwise (· ≤ ·) →
      t - ts < 2 ^ 32 → EachUpdate NothingDropped b ts times →
      (b.reapply times).availableTokens (nowMs t) = b.availableTokens (nowMs t) := by
  refine ⟨⟨wholeRefill_of_reappliesFreely, ?_⟩, ?_⟩
  · rintro hwhole b ts times t - rfl hts hsorted hw
    refine reapply_available hts hsorted hw (EachUpdate.trivial.mono fun b' hcfg elapsed _ => ?_)
    exact WholeRefill.neutral (hcfg ▸ hwhole) elapsed
  · intro b ts times t _ hts hsorted hw heach
    exact reapply_available hts hsorted hw (heach.mono fun _ _ _ h => h.neutral)

/-- Two tokens a second, updated at whole tokens. -/
theorem reapply_iff_run :
    (reapply ⟨⟨10, 2⟩, ⟨0, 3⟩⟩ [500, 1500]).availableTokens (nowMs 2400) =
      (⟨⟨10, 2⟩, ⟨0, 3⟩⟩ : TokenBucket).availableTokens (nowMs 2400) :=
  (reapply_iff ⟨10, 2⟩).2 _ 0 [500, 1500] 2400 rfl rfl (by decide) (by decide)
    ⟨.inl (by decide), .inl (by decide), trivial⟩

/-- A bucket that makes a token a second, updated once 999 ms after it was drained: the token
that was due at 1000 ms is not there. -/
theorem not_reappliesFreely : ¬ ∀ cfg, ReappliesFreely cfg := by
  intro h
  have hreach : Reachable ⟨⟨10, 1⟩, ⟨0, 0⟩⟩ :=
    ⟨10, 1, 0, .single (e := (0, .tryAcquire 10)) rfl⟩
  have heq := h ⟨10, 1⟩ _ 0 [999] 1000 hreach rfl rfl (by decide) (by decide)
  exact absurd heq (by decide)

end VortexNet.TokenBucket
