import VortexNet.Lib.Reach

/-!
# The token bucket

`Middleware/TokenBucket.cc`: settlement of elapsed time into tokens, in the
32-bit fields of `State` and `Config` and the 64-bit intermediate values the
source casts to. A call made while no other call is in flight is one pass of
the CAS loop, at the clock reading of that pass.
-/

namespace VortexNet

open Systems (Reach)

structure TokenBucket.State where
  timestamp_ms : UInt32
  tokens : UInt32
  deriving DecidableEq, Repr

structure TokenBucket.Config where
  capacity : UInt32
  refill_rate : UInt32
  deriving DecidableEq, Repr

structure TokenBucket where
  config_ : TokenBucket.Config
  state_ : TokenBucket.State
  deriving DecidableEq, Repr

namespace TokenBucket

/-- `nowMs`: the milliseconds of the steady clock since `kEpoch`, cast to 32 bits. -/
def nowMs (ms : Nat) : UInt32 := UInt32.ofNat ms

/-- One pass of the loop of `tryAcquire` on the loaded state: the state to
publish, or `none` where the pass returns false. -/
def settle (cfg : Config) (cur : State) (now need : UInt32) : Option State :=
  let produced : UInt64 := (now - cur.timestamp_ms).toUInt64 * cfg.refill_rate.toUInt64 / 1000
  let total : UInt64 := cur.tokens.toUInt64 + produced
  let tokens : UInt32 :=
    if produced > 0 then
      if total ≥ cfg.capacity.toUInt64 then cfg.capacity else total.toUInt32
    else cur.tokens
  let ts : UInt32 :=
    if produced > 0 then
      cur.timestamp_ms + (produced * 1000 / cfg.refill_rate.toUInt64).toUInt32
    else cur.timestamp_ms
  if tokens < need then none else some ⟨ts, tokens - need⟩

/-- What `update` writes to `state_` from the loaded state, under the old configuration. -/
def resettle (old_cfg : Config) (cur : State) (now new_capacity : UInt32) : State :=
  let produced : UInt64 :=
    (now - cur.timestamp_ms).toUInt64 * old_cfg.refill_rate.toUInt64 / 1000
  let total : UInt64 := cur.tokens.toUInt64 + produced
  let total := if total > old_cfg.capacity.toUInt64 then old_cfg.capacity.toUInt64 else total
  let total := if total > new_capacity.toUInt64 then new_capacity.toUInt64 else total
  ⟨now, total.toUInt32⟩

/-- What `availableTokens` returns for the loaded configuration and state. -/
def available (cfg : Config) (cur : State) (now : UInt32) : UInt32 :=
  let total : UInt64 := cur.tokens.toUInt64 +
    (now - cur.timestamp_ms).toUInt64 * cfg.refill_rate.toUInt64 / 1000
  if total ≥ cfg.capacity.toUInt64 then cfg.capacity else total.toUInt32

/-- The constructor: a full bucket settled at the clock's epoch. -/
def init (capacity refill_rate_per_sec : UInt32) : TokenBucket :=
  ⟨⟨capacity, refill_rate_per_sec⟩, ⟨0, capacity⟩⟩

def tryAcquire (b : TokenBucket) (now need : UInt32) : Bool × TokenBucket :=
  if need = 0 then (true, b)
  else if need > b.config_.capacity then (false, b)
  else match settle b.config_ b.state_ now need with
    | none => (false, b)
    | some next => (true, { b with state_ := next })

def update (b : TokenBucket) (now new_capacity new_refill_rate : UInt32) : TokenBucket :=
  ⟨⟨new_capacity, new_refill_rate⟩, resettle b.config_ b.state_ now new_capacity⟩

def availableTokens (b : TokenBucket) (now : UInt32) : UInt32 := available b.config_ b.state_ now

-- ---------------------------------------------------------------------------
-- Histories
-- ---------------------------------------------------------------------------

inductive Op
  | tryAcquire (need : UInt32)
  | update (new_capacity new_refill_rate : UInt32)

structure Clocked where
  bucket : TokenBucket
  clock : Nat

/-- One call at a clock value not before the last one. -/
def Clocked.step (s : Clocked) (e : Nat × Op) : Option Clocked :=
  if s.clock ≤ e.1 then
    match e.2 with
    | .tryAcquire need => some ⟨(s.bucket.tryAcquire (nowMs e.1) need).2, e.1⟩
    | .update cap rate => some ⟨s.bucket.update (nowMs e.1) cap rate, e.1⟩
  else none

/-- The buckets any history of calls can lead to. -/
def Reachable (b : TokenBucket) : Prop :=
  ∃ capacity rate clock,
    Reach Clocked.step Systems.Always ⟨init capacity rate, 0⟩ ⟨b, clock⟩

structure Call where
  now : Nat
  need : UInt32

/-- Clock values that never go back, from `ts` to `t`. -/
def Ordered : Nat → List Call → Nat → Prop
  | ts, [], t => ts ≤ t
  | ts, c :: cs, t => ts ≤ c.now ∧ Ordered c.now cs t

/-- The sum of the needs of the calls that return true, made one after another. -/
def granted (b : TokenBucket) : List Call → Nat
  | [] => 0
  | c :: cs =>
    let (ok, b') := b.tryAcquire (nowMs c.now) c.need
    (if ok then c.need.toNat else 0) + granted b' cs

end TokenBucket

end VortexNet
