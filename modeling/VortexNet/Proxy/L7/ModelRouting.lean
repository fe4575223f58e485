import VortexNet.Http.HttpServer
import VortexNet.Proxy.L7.GatewayLaws

/-!
# Routing by model name

The name is looked for in the part of the body that is in the buffer when the
head is complete, so two ways of reading one request choose alike exactly when
that part reaches the end of the name in both or in neither (`chooses_alike`).
-/

namespace VortexNet

open Picohttpparser Incremental

namespace L7

/-- A request to a `/v1` path, with a head that picohttpparser reads to its end. -/
structure V1Request where
  head : Bytes
  body : Bytes
  parsed : RequestHead
  accepted : Accepts parse_request head parsed
  head_int : head.length < 2 ^ 31
  v1 : (ascii "/v1").isPrefixOf parsed.path.text = true

def V1Request.bytes (r : V1Request) : Bytes := r.head ++ r.body

namespace LB_Server

/-- The cluster for a model: its own, or the default one. -/
def select (lb : LB_Server) (model_name : Bytes) : Option Selector :=
  (lb.route_table_.lookup model_name).or lb.default_llm_selector_

def route (lb : LB_Server) (parser : HttpContext) (buf : Bytes) : Bytes × Option Selector :=
  (parser.parseModelName buf, lb.select (parser.parseModelName buf))

/-- The decision on the head that a client's reads complete. -/
def chooses (lb : LB_Server) : Client → List Bytes → Option (Bytes × Option Selector)
  | _, [] => none
  | conn, data :: reads =>
    if conn.context.parser_.isExpectingBody then none
    else
      let (parsed, conn) := { conn with inputBuffer_ := conn.inputBuffer_ ++ data }.parseRequest
      if parsed then some (lb.route conn.context conn.inputBuffer_) else lb.chooses conn reads

end LB_Server

/-- How many bytes come in the read that brings the last of `missing` bytes, after it. -/
def behind (missing : Nat) : List Bytes → Nat
  | [] => 0
  | data :: reads =>
    if data.length < missing then behind (missing - data.length) reads else data.length - missing

/-- The body bytes that come with the end of the head: up to the end of the model name in both
reads, or in neither. A name that is empty counts as none. -/
def Alike (r : V1Request) (reads₁ reads₂ : List Bytes) : Prop :=
  match HttpContext.modelField r.body with
  | some (start, end_quote) => start < end_quote →
    (end_quote < behind r.head.length reads₁ ↔ end_quote < behind r.head.length reads₂)
  | none => True

-- ---------------------------------------------------------------------------
-- The decision is the gateway's
-- ---------------------------------------------------------------------------

variable {g : Gateway} {c now : Nat} {conn : Client} {lb : LB_Server} {r : V1Request}

theorem onMessage_waits (hready : (g.clients c).context.parser_.isExpectingBody = false)
    (h : (g.clients c).parseRequest = (false, conn)) :
    LB_Server.onMessage g c now = g.setClient c conn := by
  simp [LB_Server.onMessage, hready, h]

/-- What `onMessage` does with a `/v1` head that may come in. -/
theorem onMessage_routes (hready : (g.clients c).context.parser_.isExpectingBody = false)
    (h : (g.clients c).parseRequest = (true, conn))
    (hv1 : (ascii "/v1").isPrefixOf conn.context.parser_.request.path = true)
    (hkey : g.lb.auth_.authenticate conn.context.parser_.request.headers conn.inputBuffer_ = true)
    (hlimit : g.lb.llm_limiter_.tryAcquire (TokenBucket.nowMs now)
      (if 1 < (conn.context.parser_.contentLength / 4).toUInt32
        then (conn.context.parser_.contentLength / 4).toUInt32 else 1) = (true, limiter)) :
    LB_Server.onMessage g c now =
      let g' := { g.setClient c conn with lb := { g.lb with llm_limiter_ := limiter } }
      match g.lb.route conn.context conn.inputBuffer_ with
      | (model_name, some selector) => g'.accept c (selector.getNextServer g.lb.hash model_name)
      | (_, none) => g'.refuse c notFoundResponse := by
  simp only [LB_Server.onMessage, hready, h, Bool.false_eq_true, if_false, if_true]
  simp only [LB_Server.judge, Gateway.setClient_lb, hv1, hkey, hlimit, if_true, Bool.not_true,
    Bool.false_eq_true, if_false, LB_Server.route, LB_Server.select]
  cases g.lb.route_table_.lookup (conn.context.parseModelName conn.inputBuffer_) with
  | some selector => rfl
  | none =>
    simp only [Option.none_or]
    cases g.lb.default_llm_selector_ with
    | some selector => rfl
    | none => rfl

-- ---------------------------------------------------------------------------
-- The name in a part of the body
-- ---------------------------------------------------------------------------

def nameIn (body : Bytes) (n : Nat) : Bytes :=
  match HttpContext.modelField body with
  | some (start, end_quote) =>
    if end_quote < n then (body.drop start).take (end_quote - start) else []
  | none => []

theorem parseModelName_take {parser : HttpContext} {buf body : Bytes} {n : Nat}
    (h : buf.drop parser.parser_.headerLen = body.take n) :
    parser.parseModelName buf = nameIn body n := by
  rw [HttpContext.parseModelName_eq, h, nameIn]
  cases hin : HttpContext.modelField (body.take n) with
  | some field =>
    obtain ⟨start, end_quote⟩ := field
    obtain ⟨hfield, hlt⟩ := HttpContext.modelField_take.mp hin
    simp only [hfield, if_pos hlt]
    rw [List.drop_take, List.take_take, Nat.min_eq_left (by omega)]
  | none =>
    cases hfield : HttpContext.modelField body with
    | none => rfl
    | some field =>
      obtain ⟨start, end_quote⟩ := field
      dsimp only
      rw [if_neg]
      intro hlt
      exact Option.some_ne_none _ ((HttpContext.modelField_take.mpr ⟨hfield, hlt⟩).symm.trans hin)

theorem nameIn_eq_iff {body : Bytes} {n m : Nat} :
    nameIn body n = nameIn body m ↔ match HttpContext.modelField body with
      | some (start, end_quote) => start < end_quote → (end_quote < n ↔ end_quote < m)
      | none => True := by
  unfold nameIn
  cases hfield : HttpContext.modelField body with
  | none => exact iff_of_true rfl trivial
  | some field =>
    obtain ⟨start, end_quote⟩ := field
    obtain ⟨hle, hlt⟩ := HttpContext.modelField_bounds hfield
    have hlen : ((body.drop start).take (end_quote - start)).length = end_quote - start := by
      rw [List.length_take, List.length_drop]
      omega
    have hname : (body.drop start).take (end_quote - start) = [] ↔ ¬ start < end_quote := by
      rw [← List.length_eq_zero_iff, hlen]
      omega
    dsimp only
    split <;> split <;> rename_i hn hm
    · exact iff_of_true rfl fun _ => iff_of_true hn hm
    · rw [hname]
      exact ⟨fun h hs => absurd hs h, fun h hs => hm ((h hs).mp hn)⟩
    · rw [eq_comm, hname]
      exact ⟨fun h hs => absurd hs h, fun h hs => hn ((h hs).mpr hm)⟩
    · exact iff_of_true rfl fun _ => iff_of_false hn hm

-- ---------------------------------------------------------------------------
-- The reads
-- ---------------------------------------------------------------------------

theorem chooses_eq (hready : conn.context.parser_.isExpectingBody = false)
    (hhead : r.head = conn.inputBuffer_ ++ missing) (hne : missing ≠ [])
    (hs : reads.flatten = missing ++ r.body) :
    lb.chooses conn reads =
      some (nameIn r.body (behind missing.length reads),
        lb.select (nameIn r.body (behind missing.length reads))) := by
  induction reads generalizing conn missing with
  | nil =>
    have hnil : missing = [] := (List.append_eq_nil_iff.mp hs.symm).1
    exact absurd hnil hne
  | cons data reads ih =>
    rw [List.flatten_cons] at hs
    rcases HttpServer.split_body hs.symm with ⟨more, hdata, hbody⟩ | ⟨rest, hrest, hmissing⟩
    · have hbuf : conn.inputBuffer_ ++ data = r.head ++ more := by
        rw [hdata, hhead, List.append_assoc]
      have hlen : data.length = missing.length + more.length := by
        rw [hdata, List.length_append]
      let parser := { conn.context.parser_ with is_req_ := true }.requestParsed r.parsed r.head.length
      have hname : { conn.context with parser_ := parser }.parseModelName (r.head ++ more) =
          nameIn r.body (data.length - missing.length) := by
        refine parseModelName_take ?_
        rw [HttpParser.headerLen_requestParsed, List.drop_left, hlen, Nat.add_sub_cancel_left, hbody,
          List.take_left]
      rw [behind, if_neg (by omega)]
      simp only [LB_Server.chooses, hready, Client.parseRequest, hbuf, LB_Server.route, if_true,
        HttpParser.parseRequest_accepts r.accepted r.head_int, Bool.false_eq_true, if_false]
      rw [hname]
    · have hlt : data.length < missing.length := by
        have := List.length_pos_iff.mpr hrest
        rw [hmissing, List.length_append]
        omega
      have hacc : Accepts parse_request (conn.inputBuffer_ ++ data ++ rest) r.parsed := by
        rw [List.append_assoc, ← hmissing, ← hhead]
        exact r.accepted
      have hs' : reads.flatten = rest ++ r.body := by
        rw [hmissing, List.append_assoc] at hs
        exact List.append_cancel_left hs
      have hlen : missing.length - data.length = rest.length := by
        rw [hmissing, List.length_append, Nat.add_sub_cancel_left]
      rw [behind, if_pos hlt, hlen]
      simp only [LB_Server.chooses, hready, Client.parseRequest,
        HttpParser.parseRequest_incomplete hacc hrest, Bool.false_eq_true, if_false]
      refine ih ?_ ?_ hrest hs'
      · exact hready
      · simp only [hhead, hmissing, List.append_assoc]

theorem chooses_alike (hready : conn.context.parser_.isExpectingBody = false)
    (hempty : conn.inputBuffer_ = []) (h₁ : reads₁.flatten = r.bytes) (h₂ : reads₂.flatten = r.bytes) :
    lb.chooses conn reads₁ = lb.chooses conn reads₂ ↔ Alike r reads₁ reads₂ := by
  have hne : r.head ≠ [] := request_ne_nil r.accepted
  have hhead : r.head = conn.inputBuffer_ ++ r.head := by rw [hempty, List.nil_append]
  rw [chooses_eq hready hhead hne h₁, chooses_eq hready hhead hne h₂, Option.some.injEq,
    Prod.mk.injEq]
  refine Iff.trans ⟨And.left, fun h => ⟨h, congrArg lb.select h⟩⟩ nameIn_eq_iff

instance (r : V1Request) (reads₁ reads₂ : List Bytes) : Decidable (Alike r reads₁ reads₂) := by
  unfold Alike
  split <;> infer_instance

/-- A chat request for the model `qwen`. -/
def qwenRequest : V1Request where
  head := ascii "POST /v1/chat HTTP/1.1\r\nContent-Length: 16\r\n\r\n"
  body := ascii "\x7b\"model\":\"qwen\"\x7d"
  parsed := ⟨⟨0, ascii "POST"⟩, ⟨5, ascii "/v1/chat"⟩, 1,
    [⟨some ⟨24, ascii "Content-Length"⟩, ⟨40, ascii "16"⟩⟩]⟩
  accepted := by decide +kernel
  head_int := by decide +kernel
  v1 := by decide +kernel

/-- `qwen` has a cluster of its own. -/
def qwenServer : LB_Server where
  hash := List.length
  default_llm_selector_ := some { ring_ := [(0, ascii "10.0.0.1:80")] }
  route_table_ := [(ascii "qwen", { ring_ := [(0, ascii "10.0.0.2:80")] })]

/-- The head is cut, but the body comes with its end. -/
theorem chooses_alike_qwen :
    qwenServer.chooses {} [qwenRequest.head.take 9, qwenRequest.head.drop 9 ++ qwenRequest.body] =
      qwenServer.chooses {} [qwenRequest.bytes] :=
  (chooses_alike (r := qwenRequest) rfl rfl (by decide +kernel) (by decide +kernel)).mpr
    (by decide +kernel)

/-- The head first and then the body: the request goes to the default cluster. -/
theorem not_chooses_alike : [qwenRequest.bytes].flatten = qwenRequest.bytes ∧
    [qwenRequest.head, qwenRequest.body].flatten = qwenRequest.bytes ∧
    (qwenServer.chooses {} [qwenRequest.bytes]).map Prod.snd ≠
      (qwenServer.chooses {} [qwenRequest.head, qwenRequest.body]).map Prod.snd := by
  decide +kernel

end L7

end VortexNet
