import VortexNet.Lib.Checked
import VortexNet.Proxy.RateBound

/-!
# The settlement without loss

`tryAcquire`, `availableTokens` and `update` once more, each operation on 64
bits and each cast checked. They agree with the source's arithmetic at every
value of its 32-bit inputs, those included where `now - ts` has wrapped.
-/

namespace VortexNet.TokenBucket

/-- `static_cast<uint64_t>(now - ts) * refill_rate / 1000`. -/
def producedChecked (cfg : Config) (cur : State) (now : UInt32) : Option UInt64 := do
  let product ← Checked.mul (now - cur.timestamp_ms).toUInt64 cfg.refill_rate.toUInt64
  Checked.div product 1000

/-- `total >= capacity ? capacity : static_cast<uint32_t>(total)`. -/
def cutChecked (cap : UInt32) (total : UInt64) : Option UInt32 :=
  if total ≥ cap.toUInt64 then some cap else Checked.narrow total

/-- `settle`, with the advance of the timestamp held to the elapsed time. -/
def settleChecked (cfg : Config) (cur : State) (now need : UInt32) : Option (Option State) := do
  let produced ← producedChecked cfg cur now
  let (tokens, ts) ←
    if produced > 0 then do
      let total ← Checked.add cur.tokens.toUInt64 produced
      let tokens ← cutChecked cfg.capacity total
      let scaled ← Checked.mul produced 1000
      let charge ← Checked.div scaled cfg.refill_rate.toUInt64
      let advance ← Checked.narrow charge
      let advance ← Checked.atMost (now - cur.timestamp_ms) advance
      some (tokens, cur.timestamp_ms + advance)
    else some (cur.tokens, cur.timestamp_ms)
  some (if tokens < need then none else some ⟨ts, tokens - need⟩)

def availableChecked (cfg : Config) (cur : State) (now : UInt32) : Option UInt32 := do
  let produced ← producedChecked cfg cur now
  let total ← Checked.add cur.tokens.toUInt64 produced
  cutChecked cfg.capacity total

def resettleChecked (old_cfg : Config) (cur : State) (now new_capacity : UInt32) : Option State := do
  let produced ← producedChecked old_cfg cur now
  let total ← Checked.add cur.tokens.toUInt64 produced
  let total := if total > old_cfg.capacity.toUInt64 then old_cfg.capacity.toUInt64 else total
  let total := if total > new_capacity.toUInt64 then new_capacity.toUInt64 else total
  let tokens ← Checked.narrow total
  some ⟨now, tokens⟩

variable {cfg : Config} {cur : State} {now : UInt32}

abbrev produced (cfg : Config) (cur : State) (now : UInt32) : UInt64 :=
  (now - cur.timestamp_ms).toUInt64 * cfg.refill_rate.toUInt64 / 1000

theorem producedChecked_eq (cfg : Config) (cur : State) (now : UInt32) :
    producedChecked cfg cur now = some (produced cfg cur now) := by
  rw [producedChecked, Checked.mul_eq (Checked.mul_narrow_lt _ _)]
  exact Checked.div_eq (b := 1000) (by decide)

/-- What was produced fits 64 bits a thousandfold: the product it was divided from did. -/
theorem produced_scaled_lt (cfg : Config) (cur : State) (now : UInt32) :
    (produced cfg cur now).toNat * 1000 < 2 ^ 64 := by
  rw [produced_eq]
  exact producedBy_lt cfg.refill_rate.toNat_lt (UInt32.toNat_lt _)

theorem total_lt (cfg : Config) (cur : State) (now : UInt32) :
    cur.tokens.toUInt64.toNat + (produced cfg cur now).toNat < 2 ^ 64 := by
  have hscaled := produced_scaled_lt cfg cur now
  have ht := cur.tokens.toNat_lt
  rw [UInt32.toNat_toUInt64]
  omega

theorem rate_ne_zero (h : produced cfg cur now > 0) : cfg.refill_rate.toUInt64 ≠ 0 := by
  intro h0
  simp [produced, h0] at h

theorem narrow_below {total : UInt64} {cap : UInt32} (h : ¬ total ≥ cap.toUInt64) :
    total.toNat < 2 ^ 32 := by
  rw [ge_iff_le, UInt64.le_iff_toNat_le, UInt32.toNat_toUInt64] at h
  have := cap.toNat_lt
  omega

theorem cutChecked_eq (cap : UInt32) (total : UInt64) :
    cutChecked cap total = some (if total ≥ cap.toUInt64 then cap else total.toUInt32) := by
  unfold cutChecked
  split
  · rfl
  · rename_i h
    exact Checked.narrow_eq (narrow_below h)

theorem charge_toNat (cfg : Config) (cur : State) (now : UInt32) :
    (produced cfg cur now * 1000 / cfg.refill_rate.toUInt64).toNat =
      charged cfg.refill_rate.toNat (now - cur.timestamp_ms).toNat := by
  rw [UInt64.toNat_div, Checked.toNat_mul (produced_scaled_lt cfg cur now), produced_eq,
    UInt32.toNat_toUInt64]
  rfl

theorem charge_lt (cfg : Config) (cur : State) (now : UInt32) :
    (produced cfg cur now * 1000 / cfg.refill_rate.toUInt64).toNat < 2 ^ 32 := by
  rw [charge_toNat]
  exact Nat.lt_of_le_of_lt (charged_le _ _) (UInt32.toNat_lt _)

theorem advance_le (cfg : Config) (cur : State) (now : UInt32) :
    (produced cfg cur now * 1000 / cfg.refill_rate.toUInt64).toUInt32 ≤ now - cur.timestamp_ms := by
  rw [UInt32.le_iff_toNat_le, UInt64.toNat_toUInt32, Nat.mod_eq_of_lt (charge_lt cfg cur now),
    charge_toNat]
  exact charged_le _ _

theorem settleChecked_eq (cfg : Config) (cur : State) (now need : UInt32) :
    settleChecked cfg cur now need = some (settle cfg cur now need) := by
  unfold settleChecked settle
  rw [producedChecked_eq]
  simp only [Option.bind_eq_bind, Option.bind_some]
  by_cases hpos : produced cfg cur now > 0
  · have hscaled := Checked.mul_eq (a := produced cfg cur now) (b := 1000)
      (produced_scaled_lt cfg cur now)
    simp only [if_pos hpos, Checked.add_eq (total_lt cfg cur now), cutChecked_eq, hscaled,
      Checked.div_eq (rate_ne_zero hpos), Checked.narrow_eq (charge_lt cfg cur now),
      Checked.atMost_eq (advance_le cfg cur now), Option.bind_some]
  · simp only [if_neg hpos]

theorem availableChecked_eq (cfg : Config) (cur : State) (now : UInt32) :
    availableChecked cfg cur now = some (available cfg cur now) := by
  unfold availableChecked available
  rw [producedChecked_eq]
  simp only [Option.bind_eq_bind, Option.bind_some, Checked.add_eq (total_lt cfg cur now),
    cutChecked_eq]

theorem cut_above_lt (total : UInt64) (cap : UInt32) :
    (if total > cap.toUInt64 then cap.toUInt64 else total).toNat < 2 ^ 32 := by
  have hcap := cap.toNat_lt
  split
  · rwa [UInt32.toNat_toUInt64]
  · rename_i h
    rw [gt_iff_lt, UInt64.lt_iff_toNat_lt, UInt32.toNat_toUInt64] at h
    omega

theorem resettleChecked_eq (old_cfg : Config) (cur : State) (now new_capacity : UInt32) :
    resettleChecked old_cfg cur now new_capacity = some (resettle old_cfg cur now new_capacity) := by
  unfold resettleChecked resettle
  rw [producedChecked_eq]
  simp only [Option.bind_eq_bind, Option.bind_some, Checked.add_eq (total_lt old_cfg cur now),
    Checked.narrow_eq (cut_above_lt _ _)]

/-- At all values of the 32-bit inputs the three settlements lose nothing. -/
theorem settlement_checked (cfg : Config) (cur : State) (now need new_capacity : UInt32) :
    settleChecked cfg cur now need = some (settle cfg cur now need) ∧
      availableChecked cfg cur now = some (available cfg cur now) ∧
      resettleChecked cfg cur now new_capacity = some (resettle cfg cur now new_capacity) :=
  ⟨settleChecked_eq cfg cur now need, availableChecked_eq cfg cur now,
    resettleChecked_eq cfg cur now new_capacity⟩

end VortexNet.TokenBucket
