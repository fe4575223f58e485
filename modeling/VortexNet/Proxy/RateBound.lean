import Mathlib.Data.Rat.Cast.Order
import Mathlib.Tactic.Linarith
import Mathlib.Tactic.Ring
import VortexNet.Proxy.TokenBucket

/-!
# What the bucket grants over time

The refill a stretch of time should allow is `refill_rate * elapsed / 1000`.
`settle` rounds the tokens produced down, then rounds the milliseconds it
charges for them down again, so a settlement can hand out more than the time
it charges is worth. `rateBounded_iff` says for which configurations it never
does: those whose rate divides a second into whole milliseconds, or
milliseconds into whole tokens.
-/

namespace VortexNet.TokenBucket

open Systems (Reach)

variable {b : TokenBucket} {cfg : Config} {cur : State} {need : UInt32}
  {rate elapsed ts now t : Nat} {calls : List Call}

-- ---------------------------------------------------------------------------
-- Settlement in the natural numbers
-- ---------------------------------------------------------------------------

theorem nowMs_add (ts d : Nat) : nowMs (ts + d) = nowMs ts + UInt32.ofNat d := by
  simp [nowMs, UInt32.ofNat_add]

theorem nowMs_sub (h : ts ≤ now) (hw : now - ts < 2 ^ 32) :
    (nowMs now - nowMs ts).toNat = now - ts := by
  simp only [nowMs, UInt32.toNat_sub, UInt32.toNat_ofNat']
  omega

def producedBy (rate elapsed : Nat) : Nat := elapsed * rate / 1000

theorem producedBy_lt (hr : rate < 2 ^ 32) (he : elapsed < 2 ^ 32) :
    producedBy rate elapsed * 1000 < 2 ^ 64 := by
  calc producedBy rate elapsed * 1000 ≤ elapsed * rate := Nat.div_mul_le_self _ _
    _ ≤ (2 ^ 32 - 1) * (2 ^ 32 - 1) := Nat.mul_le_mul (by omega) (by omega)
    _ < 2 ^ 64 := by norm_num

theorem produced_eq (rate elapsed : UInt32) :
    (elapsed.toUInt64 * rate.toUInt64 / 1000).toNat = producedBy rate.toNat elapsed.toNat := by
  have hr := rate.toNat_lt
  have he := elapsed.toNat_lt
  have hm : elapsed.toNat * rate.toNat < 2 ^ 64 := by
    calc elapsed.toNat * rate.toNat ≤ (2 ^ 32 - 1) * (2 ^ 32 - 1) :=
          Nat.mul_le_mul (by omega) (by omega)
      _ < 2 ^ 64 := by norm_num
  rw [UInt64.toNat_div, UInt64.toNat_mul, UInt32.toNat_toUInt64, UInt32.toNat_toUInt64,
    Nat.mod_eq_of_lt hm]
  rfl

theorem produced_toNat (rate : UInt32) (h : ts ≤ now) (hw : now - ts < 2 ^ 32) :
    ((nowMs now - nowMs ts).toUInt64 * rate.toUInt64 / 1000).toNat =
      producedBy rate.toNat (now - ts) := by
  rw [produced_eq, nowMs_sub h hw]

def refilled (cfg : Config) (tokens elapsed : Nat) : Nat :=
  if 0 < producedBy cfg.refill_rate.toNat elapsed then
    min cfg.capacity.toNat (tokens + producedBy cfg.refill_rate.toNat elapsed)
  else tokens

/-- Milliseconds a settlement charges for what it produced. -/
def charged (rate elapsed : Nat) : Nat := producedBy rate elapsed * 1000 / rate

theorem charged_le (rate elapsed : Nat) : charged rate elapsed ≤ elapsed := by
  rcases Nat.eq_zero_or_pos rate with rfl | hr
  · simp [charged]
  · refine (Nat.div_le_iff_le_mul_add_pred hr).mpr ?_
    have := Nat.div_mul_le_self (elapsed * rate) 1000
    unfold producedBy
    rw [Nat.mul_comm rate elapsed]
    omega

theorem cap_toNat (cap tokens : UInt32) (produced : UInt64) (hlt : produced.toNat * 1000 < 2 ^ 64) :
    (if tokens.toUInt64 + produced ≥ cap.toUInt64 then cap
      else (tokens.toUInt64 + produced).toUInt32).toNat =
      min cap.toNat (tokens.toNat + produced.toNat) := by
  have ht := tokens.toNat_lt
  have hc := cap.toNat_lt
  have hsum : (tokens.toUInt64 + produced).toNat = tokens.toNat + produced.toNat := by
    rw [UInt64.toNat_add, UInt32.toNat_toUInt64]
    omega
  simp only [ge_iff_le, UInt64.le_iff_toNat_le, hsum, UInt32.toNat_toUInt64]
  split
  · omega
  · rw [UInt64.toNat_toUInt32, hsum]
    omega

theorem charge_eq (rate : UInt32) (produced : UInt64) (hlt : produced.toNat * 1000 < 2 ^ 64) :
    (produced * 1000 / rate.toUInt64).toUInt32 =
      UInt32.ofNat (produced.toNat * 1000 / rate.toNat) := by
  apply UInt32.toNat_inj.mp
  have hm : (produced * 1000).toNat = produced.toNat * 1000 := by
    rw [UInt64.toNat_mul]
    exact Nat.mod_eq_of_lt hlt
  rw [UInt64.toNat_toUInt32, UInt64.toNat_div, hm, UInt32.toNat_toUInt64, UInt32.toNat_ofNat']

/-- `settle` at a reading `now` of a state settled at `ts`, in natural numbers. -/
theorem settle_eq (hts : nowMs ts = cur.timestamp_ms) (h : ts ≤ now) (hw : now - ts < 2 ^ 32) :
    settle cfg cur (nowMs now) need =
      if refilled cfg cur.tokens.toNat (now - ts) < need.toNat then none
      else some ⟨nowMs (ts + charged cfg.refill_rate.toNat (now - ts)),
        UInt32.ofNat (refilled cfg cur.tokens.toNat (now - ts) - need.toNat)⟩ := by
  have hp := produced_toNat cfg.refill_rate h hw
  have hlt := producedBy_lt cfg.refill_rate.toNat_lt hw
  unfold settle
  rw [← hts]
  set produced := (nowMs now - nowMs ts).toUInt64 * cfg.refill_rate.toUInt64 / 1000
  have hpos : produced > 0 ↔ 0 < producedBy cfg.refill_rate.toNat (now - ts) := by
    rw [gt_iff_lt, UInt64.lt_iff_toNat_lt, hp]
    rfl
  have htok : (if produced > 0 then
      if cur.tokens.toUInt64 + produced ≥ cfg.capacity.toUInt64 then cfg.capacity
      else (cur.tokens.toUInt64 + produced).toUInt32
      else cur.tokens).toNat = refilled cfg cur.tokens.toNat (now - ts) := by
    simp only [hpos, refilled]
    split
    · rw [cap_toNat _ _ _ (hp ▸ hlt), hp]
    · rfl
  have htime : (if produced > 0 then
      nowMs ts + (produced * 1000 / cfg.refill_rate.toUInt64).toUInt32 else nowMs ts) =
      nowMs (ts + charged cfg.refill_rate.toNat (now - ts)) := by
    simp only [hpos]
    split
    · rw [charge_eq _ _ (hp ▸ hlt), hp, ← nowMs_add]
      rfl
    · rename_i h0
      simp [charged, Nat.eq_zero_of_not_pos h0]
  simp only [htime, UInt32.lt_iff_toNat_lt, htok]
  split
  · rfl
  · rename_i hn
    congr 2
    apply UInt32.toNat_inj.mp
    rw [UInt32.toNat_sub_of_le _ _ (UInt32.le_iff_toNat_le.mpr (by omega)), htok,
      UInt32.toNat_ofNat']
    have := need.toNat_lt
    have : refilled cfg cur.tokens.toNat (now - ts) < 2 ^ 32 := htok ▸ UInt32.toNat_lt _
    omega

/-- What one call does to a bucket settled at `ts`: nothing for a need of zero,
nothing where it refuses, and else settle and take the need. -/
theorem tryAcquire_cases (need : UInt32) (hts : nowMs ts = b.state_.timestamp_ms) (h : ts ≤ now)
    (hw : now - ts < 2 ^ 32) :
    (need = 0 ∧ b.tryAcquire (nowMs now) need = (true, b)) ∨
    ((b.config_.capacity.toNat < need.toNat ∨
        refilled b.config_ b.state_.tokens.toNat (now - ts) < need.toNat) ∧
      b.tryAcquire (nowMs now) need = (false, b)) ∨
    ∃ b', b.tryAcquire (nowMs now) need = (true, b') ∧ b'.config_ = b.config_ ∧
      0 < b.config_.capacity.toNat ∧
      nowMs (ts + charged b.config_.refill_rate.toNat (now - ts)) = b'.state_.timestamp_ms ∧
      need.toNat + b'.state_.tokens.toNat =
        refilled b.config_ b.state_.tokens.toNat (now - ts) := by
  unfold tryAcquire
  by_cases h0 : need = 0
  · exact .inl ⟨h0, if_pos h0⟩
  rw [if_neg h0]
  by_cases hc : need > b.config_.capacity
  · exact .inr (.inl ⟨.inl (UInt32.lt_iff_toNat_lt.mp hc), if_pos hc⟩)
  rw [if_neg hc, settle_eq hts h hw]
  by_cases hr : refilled b.config_ b.state_.tokens.toNat (now - ts) < need.toNat
  · exact .inr (.inl ⟨.inr hr, by rw [if_pos hr]⟩)
  rw [if_neg hr]
  refine .inr (.inr ⟨_, rfl, rfl, ?_, rfl, ?_⟩)
  · have hpos : 0 < need.toNat := Nat.pos_of_ne_zero fun he => h0 (UInt32.toNat_inj.mp he)
    have := UInt32.lt_iff_toNat_lt.not.mp hc
    omega
  · have hlt : refilled b.config_ b.state_.tokens.toNat (now - ts) < 2 ^ 32 := by
      unfold refilled
      have := b.config_.capacity.toNat_lt
      have := b.state_.tokens.toNat_lt
      split <;> omega
    rw [UInt32.toNat_ofNat']
    omega

-- ---------------------------------------------------------------------------
-- Exact rates
-- ---------------------------------------------------------------------------

/-- No settlement rounds: the rate is zero, or a token takes a whole number of
milliseconds, or a millisecond makes a whole number of tokens. A bucket of
capacity zero grants nothing at any rate. -/
def ExactRefill (cfg : Config) : Prop :=
  cfg.capacity.toNat = 0 ∨ cfg.refill_rate.toNat = 0 ∨
    cfg.refill_rate.toNat ∣ 1000 ∨ 1000 ∣ cfg.refill_rate.toNat

instance : Decidable (ExactRefill cfg) := by unfold ExactRefill; infer_instance

theorem ExactRefill.charge (h : ExactRefill cfg) (hc : 0 < cfg.capacity.toNat) (elapsed : Nat) :
    producedBy cfg.refill_rate.toNat elapsed * 1000 =
      cfg.refill_rate.toNat * charged cfg.refill_rate.toNat elapsed := by
  rcases h with h | h | h | ⟨q, h⟩
  · omega
  · simp [h, producedBy]
  · exact (Nat.mul_div_cancel' (Dvd.dvd.mul_left h _)).symm
  · have hp : producedBy cfg.refill_rate.toNat elapsed = elapsed * q := by
      rw [h, producedBy, ← Nat.mul_assoc, Nat.mul_comm elapsed, Nat.mul_assoc,
        Nat.mul_div_cancel_left _ (by decide)]
    have hd : cfg.refill_rate.toNat ∣ elapsed * q * 1000 := ⟨elapsed, by rw [h]; ring⟩
    rw [charged, hp, Nat.mul_div_cancel' hd]

theorem refilled_le (cfg : Config) (tokens elapsed : Nat) :
    refilled cfg tokens elapsed ≤ tokens + producedBy cfg.refill_rate.toNat elapsed := by
  unfold refilled
  split <;> omega

theorem Ordered.weaken (h : ts ≤ ts') (ho : Ordered ts' calls t) : Ordered ts calls t := by
  cases calls with
  | nil => exact h.trans ho
  | cons c cs => exact ⟨h.trans ho.1, ho.2⟩

theorem Ordered.le (ho : Ordered ts calls t) : ts ≤ t := by
  induction calls generalizing ts with
  | nil => exact ho
  | cons c cs ih => exact ho.1.trans (ih ho.2)

theorem granted_le (hx : ExactRefill b.config_) (hts : nowMs ts = b.state_.timestamp_ms)
    (ho : Ordered ts calls t) (hw : t - ts < 2 ^ 32) :
    b.granted calls * 1000 ≤
      b.state_.tokens.toNat * 1000 + b.config_.refill_rate.toNat * (t - ts) := by
  induction calls generalizing b ts with
  | nil => simp [granted]
  | cons c cs ih =>
    obtain ⟨hle, ho⟩ := ho
    have hct := ho.le
    simp only [granted]
    rcases tryAcquire_cases c.need hts hle (by omega) with
      ⟨hzero, hcall⟩ | ⟨-, hcall⟩ | ⟨b', hcall, hcfg, hcap, hts', hneed⟩
    · simpa [hcall, show c.need.toNat = 0 by rw [hzero]; rfl] using ih hx hts (ho.weaken hle) hw
    · simpa [hcall] using ih hx hts (ho.weaken hle) hw
    · have hd := charged_le b.config_.refill_rate.toNat (c.now - ts)
      have hrest := ih (b := b') (hcfg ▸ hx) hts' (ho.weaken (by omega)) (by omega)
      have hpaid := hx.charge hcap (c.now - ts)
      have hprod := refilled_le b.config_ b.state_.tokens.toNat (c.now - ts)
      have hsplit : b.config_.refill_rate.toNat * (t - ts) =
          b.config_.refill_rate.toNat * charged b.config_.refill_rate.toNat (c.now - ts) +
          b.config_.refill_rate.toNat *
            (t - (ts + charged b.config_.refill_rate.toNat (c.now - ts))) := by
        rw [← Nat.mul_add]
        congr 1
        omega
      rw [hcfg] at hrest
      simp only [hcall, ↓reduceIte]
      linarith

-- ---------------------------------------------------------------------------
-- The bound
-- ---------------------------------------------------------------------------

/-- From every reachable bucket with this configuration, whose state was
settled at `ts`, calls up to `t` grant at most the tokens held at `ts` and what
`refill_rate` allows for `t - ts` milliseconds. -/
def RateBounded (cfg : Config) : Prop :=
  ∀ (b : TokenBucket) (ts t : Nat) (calls : List Call), Reachable b → b.config_ = cfg →
    nowMs ts = b.state_.timestamp_ms → Ordered ts calls t → t - ts < 2 ^ 32 →
    (b.granted calls : ℚ) ≤
      b.state_.tokens.toNat + (cfg.refill_rate.toNat : ℚ) * ((t : ℚ) - ts) / 1000

theorem ExactRefill.rateBounded (h : ExactRefill cfg) : RateBounded cfg := by
  rintro b ts t calls - rfl hts ho hw
  have hle : (b.granted calls * 1000 : ℚ) ≤
      b.state_.tokens.toNat * 1000 + b.config_.refill_rate.toNat * ((t - ts : Nat) : ℚ) := by
    exact_mod_cast granted_le h hts ho hw
  rw [Nat.cast_sub ho.le] at hle
  linarith

-- ---------------------------------------------------------------------------
-- Inexact rates
-- ---------------------------------------------------------------------------

/-- One millisecond past `1000 / rate`, an inexact rate has produced a token
and is charged only `1000 / rate` milliseconds for it. -/
theorem leak_of_not_exact (hx : ¬ ExactRefill cfg) :
    0 < producedBy cfg.refill_rate.toNat (1000 / cfg.refill_rate.toNat + 1) ∧
      charged cfg.refill_rate.toNat (1000 / cfg.refill_rate.toNat + 1) =
        1000 / cfg.refill_rate.toNat ∧
      cfg.refill_rate.toNat * (1000 / cfg.refill_rate.toNat) < 1000 := by
  simp only [ExactRefill, not_or] at hx
  obtain ⟨-, hr, hdvd, hdvd'⟩ := hx
  set r := cfg.refill_rate.toNat
  have hpos : 0 < r := Nat.pos_of_ne_zero hr
  have hlt : r * (1000 / r) < 1000 :=
    lt_of_le_of_ne (Nat.mul_div_le 1000 r) fun he => hdvd ⟨_, he.symm⟩
  have hmul : (1000 / r + 1) * r = r * (1000 / r) + r := by ring
  have hmod := Nat.div_add_mod 1000 r
  have hrem := Nat.mod_lt 1000 hpos
  rcases Nat.lt_or_gt_of_ne (show r ≠ 1000 by rintro he; exact hdvd (he ▸ dvd_rfl)) with hs | hs
  · -- a token takes more than one millisecond: exactly one has been produced
    have hone : producedBy r (1000 / r + 1) = 1 := by
      unfold producedBy
      rw [hmul]
      omega
    simp [charged, hone, hlt]
  · -- a millisecond makes a token and more: no whole millisecond is charged
    have hzero : 1000 / r = 0 := Nat.div_eq_of_lt hs
    have hprod : producedBy r 1 * 1000 < r := by
      unfold producedBy
      rw [Nat.one_mul]
      exact lt_of_le_of_ne (Nat.div_mul_le_self r 1000) fun he => hdvd' ⟨r / 1000, by omega⟩
    refine ⟨?_, ?_, hlt⟩
    · simp only [hzero, producedBy]
      omega
    · simp [hzero, charged, Nat.div_eq_of_lt hprod]

/-- `n` calls for one token, each `d + 1` milliseconds after a settlement that
is charged `d`. -/
def leak (d ts : Nat) : Nat → List Call
  | 0 => []
  | n + 1 => ⟨ts + d + 1, 1⟩ :: leak d (ts + d) n

theorem leak_ordered (h : now ≤ ts + 1) : Ordered now (leak d ts n) (ts + n * d + 1) := by
  induction n generalizing now ts with
  | zero => simpa [leak, Ordered] using h
  | succ n ih =>
    refine ⟨show now ≤ ts + d + 1 by omega, ?_⟩
    have hn : ts + (n + 1) * d + 1 = ts + d + n * d + 1 := by ring
    exact hn ▸ ih (le_refl _)

theorem granted_leak (hcap : 0 < cfg.capacity.toNat)
    (hprod : 0 < producedBy cfg.refill_rate.toNat (d + 1))
    (hcharge : charged cfg.refill_rate.toNat (d + 1) = d) (hd : d ≤ 1000)
    (hcfg : b.config_ = cfg) (hts : nowMs ts = b.state_.timestamp_ms) :
    b.granted (leak d ts n) = n := by
  induction n generalizing b ts with
  | zero => rfl
  | succ n ih =>
    have hel : ts + d + 1 - ts = d + 1 := by omega
    have hone : (1 : UInt32).toNat = 1 := rfl
    rcases tryAcquire_cases 1 hts (show ts ≤ ts + d + 1 by omega) (by omega) with
      ⟨h, -⟩ | ⟨h, -⟩ | ⟨b', hcall, hcfg', -, hts', -⟩
    · exact absurd h (by decide)
    · rw [hel, hone, hcfg, refilled, if_pos hprod] at h
      omega
    · rw [hel, hcfg, hcharge] at hts'
      rw [leak, granted, hcall]
      simp only [↓reduceIte, hone, ih (hcfg'.trans hcfg) hts']
      omega

theorem tryAcquire_init (hcap : cfg.capacity ≠ 0) :
    (init cfg.capacity cfg.refill_rate).tryAcquire (nowMs 0) cfg.capacity =
      (true, ⟨cfg, ⟨0, 0⟩⟩) := by
  simp [tryAcquire, init, settle, hcap, nowMs]

theorem exactRefill_of_rateBounded (h : RateBounded cfg) : ExactRefill cfg := by
  by_contra hx
  obtain ⟨hprod, hcharge, hlt⟩ := leak_of_not_exact hx
  set r := cfg.refill_rate.toNat with hr
  have hcap : cfg.capacity ≠ 0 := fun h0 => hx (.inl (by simp [h0]))
  have hcap' : 0 < cfg.capacity.toNat := Nat.pos_of_ne_zero fun h0 => hx (.inl h0)
  -- drain the full bucket at the epoch, then leak long enough
  have hgrant : (init cfg.capacity cfg.refill_rate).granted
      (⟨0, cfg.capacity⟩ :: leak (1000 / r) 0 (r + 1)) = cfg.capacity.toNat + (r + 1) := by
    rw [granted, tryAcquire_init hcap]
    simp only [↓reduceIte]
    rw [granted_leak hcap' hprod hcharge (Nat.div_le_self _ _) rfl rfl]
  have hd : (r + 1) * (1000 / r) ≤ 2000 := by
    have := Nat.div_le_self 1000 r
    linarith [show (r + 1) * (1000 / r) = r * (1000 / r) + 1000 / r by ring]
  have hb := h _ 0 (0 + (r + 1) * (1000 / r) + 1) (⟨0, cfg.capacity⟩ :: leak (1000 / r) 0 (r + 1))
    ⟨cfg.capacity, cfg.refill_rate, 0, .refl⟩ rfl rfl ⟨le_refl 0, leak_ordered (Nat.zero_le _)⟩ (by omega)
  rw [hgrant] at hb
  have hlt' : (r * (1000 / r : Nat) : ℚ) + 1 ≤ 1000 := by exact_mod_cast hlt
  push_cast [init] at hb
  have hr0 : (0 : ℚ) ≤ r := by positivity
  have hmul : (r : ℚ) * ((r + 1) * (1000 / r : Nat) + 1) ≤ 999 * (r + 1) + r := by
    nlinarith
  linarith

/-- The bound holds of a configuration exactly when its refill never rounds. -/
theorem rateBounded_iff (cfg : Config) : RateBounded cfg ↔ ExactRefill cfg :=
  ⟨exactRefill_of_rateBounded, ExactRefill.rateBounded⟩

/-- At the rate the gateway gives its LLM bucket, one millisecond's refill is
granted twice: two tokens cost no whole millisecond. -/
theorem not_rateBounded_llm : ¬ RateBounded ⟨8192, 2048⟩ := by
  intro h
  have hb := h (init 8192 2048) 0 1 [⟨0, 8192⟩, ⟨1, 2⟩, ⟨1, 2⟩] ⟨8192, 2048, 0, .refl⟩ rfl rfl
    (by simp [Ordered]) (by decide)
  have hg : (init 8192 2048).granted [⟨0, 8192⟩, ⟨1, 2⟩, ⟨1, 2⟩] = 8196 := by decide
  rw [hg] at hb
  have h8192 : (8192 : UInt32).toNat = 8192 := rfl
  have h2048 : (2048 : UInt32).toNat = 2048 := rfl
  norm_num [init, h8192, h2048] at hb

end VortexNet.TokenBucket
