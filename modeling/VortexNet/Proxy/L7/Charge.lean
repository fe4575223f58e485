import VortexNet.Proxy.L7.GatewayLaws

/-!
# What a request to a model costs

A quarter of the Content-Length in tokens, and at least one. The quarter is cast
to 32 bits before it is charged, so from 2^34 bytes on the charge starts again
at one token.
-/

namespace VortexNet

open Picohttpparser

namespace L7

/-- `estimated_tokens` of `onMessage`. -/
def estimated_tokens (content_length : Nat) : UInt32 :=
  if 1 < (content_length / 4).toUInt32 then (content_length / 4).toUInt32 else 1

/-- Client `c` has the head of a `/v1` request with a valid key in its buffer, and `conn` is the
client after the parse. -/
structure Arrives (g : Gateway) (c : Nat) (conn : Client) (content_length : Nat) : Prop where
  ready : (g.clients c).context.parser_.isExpectingBody = false
  parsed : (g.clients c).parseRequest = (true, conn)
  v1 : (ascii "/v1").isPrefixOf conn.context.parser_.request.path = true
  key : g.lb.auth_.authenticate conn.context.parser_.request.headers conn.inputBuffer_ = true
  length : conn.context.parser_.contentLength = content_length

/-- The law of the charge for a Content-Length. -/
structure ChargesFor (n : Nat) : Prop where
  cost : (estimated_tokens n).toNat = max 1 (n / 4)
  charged : ∀ g c now conn, Arrives g c conn n →
    (LB_Server.onMessage g c now).lb.llm_limiter_ =
      (g.lb.llm_limiter_.tryAcquire (TokenBucket.nowMs now) (estimated_tokens n)).2
  monotone : ∀ m ≤ n, estimated_tokens m ≤ estimated_tokens n
  rejected : ∀ g c now conn, Arrives g c conn n →
    g.lb.llm_limiter_.config_.capacity.toNat < max 1 (n / 4) →
    LB_Server.onMessage g c now = (g.setClient c conn).refuse c tooManyRequestsResponse

variable {g : Gateway} {c now n m : Nat} {conn : Client}

theorem Arrives.onMessage (h : Arrives g c conn n) : LB_Server.onMessage g c now =
    match g.lb.llm_limiter_.tryAcquire (TokenBucket.nowMs now) (estimated_tokens n) with
    | (false, limiter) =>
      { g.setClient c conn with lb := { g.lb with llm_limiter_ := limiter } }.refuse c
        tooManyRequestsResponse
    | (true, limiter) =>
      let lb := { g.lb with llm_limiter_ := limiter }
      let model_name := conn.context.parseModelName conn.inputBuffer_
      match (g.lb.route_table_.lookup model_name).or g.lb.default_llm_selector_ with
      | some selector =>
        { g.setClient c conn with lb }.accept c (selector.getNextServer g.lb.hash model_name)
      | none => { g.setClient c conn with lb }.refuse c notFoundResponse := by
  simp only [LB_Server.onMessage, h.ready, h.parsed, Bool.false_eq_true, if_false, if_true,
    LB_Server.judge, Gateway.setClient_lb, h.v1, h.key, Bool.not_true, h.length]
  rw [← estimated_tokens]
  rcases g.lb.llm_limiter_.tryAcquire (TokenBucket.nowMs now) (estimated_tokens n) with ⟨ok, limiter⟩
  cases ok with
  | false => rfl
  | true =>
    dsimp only [Bool.not_true]
    cases g.lb.route_table_.lookup (conn.context.parseModelName conn.inputBuffer_) with
    | some selector => rfl
    | none => cases g.lb.default_llm_selector_ with
      | some selector => rfl
      | none => rfl

-- ---------------------------------------------------------------------------
-- The limiter after a request
-- ---------------------------------------------------------------------------

theorem refuse_lb (response : Bytes) : (g.refuse c response).lb = g.lb := rfl

theorem accept_lb (targetAddr : Bytes) : (g.accept c targetAddr).lb = g.lb := by
  have hborrow : (g.borrowConnection targetAddr).2.lb = g.lb := by
    unfold Gateway.borrowConnection
    split
    · rfl
    · rfl
  exact hborrow

theorem Arrives.limiter (h : Arrives g c conn n) : (LB_Server.onMessage g c now).lb.llm_limiter_ =
    (g.lb.llm_limiter_.tryAcquire (TokenBucket.nowMs now) (estimated_tokens n)).2 := by
  rw [h.onMessage]
  rcases g.lb.llm_limiter_.tryAcquire (TokenBucket.nowMs now) (estimated_tokens n) with ⟨ok, limiter⟩
  cases ok with
  | false => rfl
  | true =>
    dsimp only
    split
    · rw [accept_lb]
    · rw [refuse_lb]

theorem tryAcquire_too_much {b : TokenBucket} {t need : UInt32}
    (h : b.config_.capacity < need) : b.tryAcquire t need = (false, b) := by
  have hne : need ≠ 0 := by
    rintro rfl
    exact absurd h UInt32.not_lt_zero
  rw [TokenBucket.tryAcquire, if_neg hne, if_pos h]

theorem Arrives.refused (h : Arrives g c conn n)
    (hlt : g.lb.llm_limiter_.config_.capacity < estimated_tokens n) :
    LB_Server.onMessage g c now = (g.setClient c conn).refuse c tooManyRequestsResponse := by
  rw [h.onMessage, tryAcquire_too_much hlt]
  rfl

-- ---------------------------------------------------------------------------
-- The charge
-- ---------------------------------------------------------------------------

theorem toNat_estimated_tokens (n : Nat) :
    (estimated_tokens n).toNat = max 1 (n / 4 % 2 ^ 32) := by
  have hcast : (n / 4).toUInt32.toNat = n / 4 % 2 ^ 32 := UInt32.toNat_ofNat'
  rw [estimated_tokens]
  split
  · rename_i hlt
    rw [UInt32.lt_iff_toNat_lt, hcast] at hlt
    rw [hcast]
    exact (Nat.max_eq_right (Nat.le_of_lt hlt)).symm
  · rename_i hle
    rw [UInt32.lt_iff_toNat_lt, hcast, Nat.not_lt] at hle
    exact (Nat.max_eq_left hle).symm

theorem estimated_tokens_fits (h : n < 2 ^ 34) : (estimated_tokens n).toNat = max 1 (n / 4) := by
  rw [toNat_estimated_tokens, Nat.mod_eq_of_lt (by omega)]

/-- The charge follows the law up to 2^34 bytes, and not from there on. -/
theorem charges_for_iff (n : Nat) : ChargesFor n ↔ n < 2 ^ 34 := by
  constructor
  · intro hlaw
    have hcost := hlaw.cost
    have hlt := (estimated_tokens n).toNat_lt
    omega
  · intro hn
    refine ⟨estimated_tokens_fits hn, fun g c now conn h => h.limiter, fun m hm => ?_,
      fun g c now conn h hcap => h.refused ?_⟩
    · rw [UInt32.le_iff_toNat_le, estimated_tokens_fits hn,
        estimated_tokens_fits (Nat.lt_of_le_of_lt hm hn)]
      have hquarter : m / 4 ≤ n / 4 := Nat.div_le_div_right hm
      omega
    · rw [UInt32.lt_iff_toNat_lt, estimated_tokens_fits hn]
      exact hcap

/-- 16 gigabytes for one token, and four bytes fewer for all the tokens of 32 bits. -/
theorem not_charges_for : estimated_tokens (2 ^ 34) = 1 ∧
    estimated_tokens (2 ^ 34 - 4) = 4294967295 ∧ ¬ ChargesFor (2 ^ 34) := by
  refine ⟨by decide, by decide, fun hlaw => ?_⟩
  exact absurd hlaw.cost (by decide)

end L7

end VortexNet
