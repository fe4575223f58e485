import VortexNet.Codec.TLVCodec
import VortexNet.Lib.Reach
import VortexNet.Net.TcpConnection

/-!
# A client and an echoing server

Two established connections that are the two ends of one, with `onTLVmessage`
as the message callback of the server, as in `TLV_example/testserver.cc`. What
the socket of one end has taken comes to the other in order, in reads of any
size. Messages are sent, written, read and answered in any order, until an end
reads the FIN of the other.
-/

namespace VortexNet.TLVCodec

open Systems (Reach Always exec)
open TcpConnection (Written Owes established owes_established)

/-- A write that the socket can make of `data`, and that does not say that the peer has gone. -/
def sendOver (conn : TcpConnection) (data : Bytes) (w : Written) : Option TcpConnection :=
  if w.Fits data.length then conn.send data w else none

structure Peer where
  conn : TcpConnection
  inputBuffer_ : Bytes := []
  messages : List Message := []

def Peer.send (p : Peer) (version : UInt8) (m : Message) (w : Written) : Option Peer := do
  let data ← serialise version m
  let conn ← sendOver p.conn data w
  some { p with conn }

def Peer.onTLVmessageFrom (version : Nat → UInt8) (w : Nat → Written) : Nat → Peer → Option Peer
  | 0, p => some p
  | fuel + 1, p =>
    if sizeofMessageHeader ≤ p.inputBuffer_.length then
      let header := MessageHeader.ofBytes p.inputBuffer_
      if ntohl header.magic ≠ PROTOCOL_MAGIC then some { p with conn := p.conn.shutdown }
      else
        let len := ntohl header.length
        let type := UInt16.ofNat (ntohs header.type)
        if p.inputBuffer_.length < len + sizeofMessageHeader then some p
        else
          let buf := p.inputBuffer_.drop sizeofMessageHeader
          let m : Message := { type, body := buf.take len }
          let k := p.messages.length
          let p := { p with inputBuffer_ := buf.drop len, messages := p.messages ++ [m] }
          (p.send (version k) m (w k)).bind (Peer.onTLVmessageFrom version w fuel)
    else some p

def Peer.handleRead (version : Nat → UInt8) (w : Nat → Written) (p : Peer) (data : Bytes) : Option Peer :=
  let p := { p with inputBuffer_ := p.inputBuffer_ ++ data }
  p.onTLVmessageFrom version w p.inputBuffer_.length

/-- `sent` are the messages that the client has sent while connected, each with the byte that is its
version. The server has read the first `arrived` bytes that the socket of the client has taken, and
the client the first `returned` of the server's. -/
structure Echo where
  client : TcpConnection
  server : Peer
  sent : List (UInt8 × Message) := []
  arrived : Nat := 0
  returned : Nat := 0

namespace Echo

inductive Event
  | send (version : UInt8) (m : Message) (w : Written)
  | shutdown
  | clientWrite (w : Written)
  /-- The server reads `n` bytes and answers the messages that are whole now. -/
  | serverRead (n : Nat) (w : Nat → Written)
  | serverWrite (w : Written)
  | clientRead (n : Nat)

/-- The bytes that the client has read. -/
def received (s : Echo) : Bytes := s.server.conn.written.take s.returned

def step (version : Nat → UInt8) (s : Echo) : Event → Option Echo
  | .send byte m w =>
    if m.body.length < 2 ^ 32 then do
      let data ← serialise byte m
      let client ← sendOver s.client data w
      some { s with
        client, sent := if s.client.state_ = .kConnected then s.sent ++ [(byte, m)] else s.sent }
    else none
  | .shutdown => some { s with client := s.client.shutdown }
  | .clientWrite w =>
    if w.Fits s.client.outputBuffer_.readableBytes then some { s with client := s.client.handleWrite w }
    else none
  | .serverRead n w =>
    if 0 < n ∧ s.arrived + n ≤ s.client.written.length then do
      let server ← s.server.handleRead version w ((s.client.written.drop s.arrived).take n)
      some { s with server, arrived := s.arrived + n }
    else none
  | .serverWrite w =>
    if w.Fits s.server.conn.outputBuffer_.readableBytes then
      some { s with server := { s.server with conn := s.server.conn.handleWrite w } }
    else none
  | .clientRead n =>
    if 0 < n ∧ s.returned + n ≤ s.server.conn.written.length then
      some { s with returned := s.returned + n }
    else none

def init (mark : Nat) (complete high : Bool) : Echo where
  client := established mark complete high
  server := { conn := established mark complete high }

/-- Nothing waits at either end or between them. -/
structure AtRest (s : Echo) : Prop where
  written : s.client.outputBuffer_.readable = []
  arrived : s.arrived = s.client.written.length
  answered : s.server.conn.outputBuffer_.readable = []
  returned : s.returned = s.server.conn.written.length

/-- The server decodes what was sent, in order and once, and the client reads the answers to it;
at rest nothing is missing. -/
structure Echoes (version : Nat → UInt8) (s : Echo) : Prop where
  connected : s.server.conn.state_ = .kConnected
  decoded : s.server.messages <+: s.sent.map Prod.snd
  received : s.received <+: replies version 0 (s.sent.map Prod.snd)
  echoed : (decoder.drain s.received).1 <+: s.server.messages
  complete : AtRest s → s.server.messages = s.sent.map Prod.snd ∧ s.server.inputBuffer_ = [] ∧
    s.received = replies version 0 (s.sent.map Prod.snd) ∧
    decoder.drain s.received = (s.sent.map Prod.snd, [])

end Echo

-- ---------------------------------------------------------------------------
-- A connection
-- ---------------------------------------------------------------------------

section
variable {conn conn' : TcpConnection} {data : Bytes} {w : Written}

/-- The socket may have taken more, and nothing else has changed for the codec. -/
structure Grows (conn conn' : TcpConnection) : Prop where
  state_ : conn'.state_ = conn.state_
  sent : conn'.sent = conn.sent
  written : conn.written <+: conn'.written

theorem Grows.refl (conn : TcpConnection) : Grows conn conn := ⟨rfl, rfl, List.prefix_rfl⟩

theorem Grows.trans {conn'' : TcpConnection} (h : Grows conn conn') (h' : Grows conn' conn'') :
    Grows conn conn'' :=
  ⟨h'.state_.trans h.state_, h'.sent.trans h.sent, h.written.trans h'.written⟩

theorem Grows.of_same (h : TcpConnection.Same conn conn') : Grows conn conn' :=
  ⟨h.state_, h.sent, h.written ▸ List.prefix_rfl⟩

theorem grows_writeNow (conn : TcpConnection) (data : Bytes) (w : Written) :
    Grows conn (conn.writeNow data w).1 := by
  cases w with
  | bytes n =>
    have htaken : Grows conn (conn.take (data.take n)) := ⟨rfl, rfl, List.prefix_append _ _⟩
    simp only [TcpConnection.writeNow]
    split
    · exact htaken.trans (.of_same TcpConnection.same_queueWriteComplete)
    · exact htaken
  | error errno => exact .refl conn

theorem grows_keep {remaining : Bytes} (h : conn.keep remaining = some conn') : Grows conn conn' := by
  unfold TcpConnection.keep at h
  split at h
  · cases h
  · obtain ⟨b, -, rfl⟩ := Option.map_eq_some_iff.mp h
    have hs := TcpConnection.same_queueHighWaterMark conn conn.outputBuffer_.readableBytes remaining.length
    exact ⟨hs.state_, hs.sent, hs.written ▸ List.prefix_rfl⟩

theorem grows_sendInLoop (h : conn.sendInLoop data w = some conn') : Grows conn conn' := by
  unfold TcpConnection.sendInLoop at h
  split at h
  · cases h
    exact .refl conn
  · split at h
    rename_i conn₁ nwrote faultError hnow
    have hfirst : Grows conn conn₁ := by
      split at hnow
      · have hw := grows_writeNow conn data w
        rw [hnow] at hw
        exact hw
      · cases hnow
        exact .refl conn
    split at h
    · exact hfirst.trans (grows_keep h)
    · cases h
      exact hfirst

theorem send_sent (h : conn.send data w = some conn') : conn'.state_ = conn.state_ ∧
    conn'.sent = (if conn.state_ = .kConnected then conn.sent ++ data else conn.sent) ∧
      conn.written <+: conn'.written := by
  unfold TcpConnection.send at h
  split at h
  · rename_i hst
    rw [if_pos hst]
    obtain ⟨hstate, hsent, hwritten⟩ := grows_sendInLoop h
    exact ⟨hstate, hsent, hwritten⟩
  · rename_i hst
    rw [if_neg hst]
    cases h
    exact ⟨rfl, rfl, List.prefix_rfl⟩

theorem shutdown_frame (conn : TcpConnection) :
    conn.shutdown.sent = conn.sent ∧ conn.shutdown.written = conn.written := by
  unfold TcpConnection.shutdown TcpConnection.shutdownInLoop
  split
  · split <;> exact ⟨rfl, rfl⟩
  · exact ⟨rfl, rfl⟩

theorem grows_flushed (conn : TcpConnection) : Grows conn conn.flushed := by
  have hoff : Grows conn conn.disableWriting := ⟨rfl, rfl, List.prefix_rfl⟩
  have hs := hoff.trans (.of_same TcpConnection.same_queueWriteComplete)
  unfold TcpConnection.flushed
  split
  · dsimp only
    split
    · unfold TcpConnection.shutdownInLoop
      split <;> exact ⟨hs.state_, hs.sent, hs.written⟩
    · exact hs
  · exact .refl conn

theorem grows_handleWrite (conn : TcpConnection) (w : Written) : Grows conn (conn.handleWrite w) := by
  unfold TcpConnection.handleWrite
  split
  · cases w with
    | error errno => exact .refl conn
    | bytes n =>
      dsimp only
      split
      · obtain ⟨hstate, -, -, hsent⟩ := TcpConnection.flush_fields conn n
        have hflush : Grows conn (conn.flush n) := by
          refine ⟨hstate, hsent, ?_⟩
          unfold TcpConnection.flush
          exact List.prefix_append _ _
        exact hflush.trans (grows_flushed _)
      · exact .refl conn
  · exact .refl conn

theorem sendOver_owes (h : Owes conn []) (hsize : data.length ≤ Buffer.max_size)
    (hs : sendOver conn data w = some conn') : Owes conn' [] := by
  obtain ⟨hw, hs⟩ := Option.ite_none_right_eq_some.mp hs
  exact h.send hsize hw hs

end

-- ---------------------------------------------------------------------------
-- The streams
-- ---------------------------------------------------------------------------

variable {version : Nat → UInt8} {w : Nat → Written} {p p' : Peer} {ms : List Message} {data : Bytes}

theorem bytes_length (m : Message) (byte : UInt8) (h : m.body.length < 2 ^ 32) :
    (m.bytes byte).length ≤ Buffer.max_size := by
  simp only [Message.bytes, htonl, htons, BigEndian.length_encode, List.length_append, List.length_cons,
    Buffer.max_size]
  omega

theorem decoder_message {m : Message} (h : m.body.length < 2 ^ 32) (byte : UInt8) (t : Bytes) :
    decoder.next (m.bytes byte ++ t) = .message m t := by
  simp only [decoder]
  exact next_bytes h byte t

theorem drain_replies (k : Nat) (h : ∀ m ∈ ms, m.body.length < 2 ^ 32) :
    decoder.drain (replies version k ms) = (ms, []) := by
  induction ms generalizing k with
  | nil => exact decoder.drain_waits decoder.waits_nil
  | cons m ms ih =>
    rw [replies, decoder.drain_message (decoder_message (h m List.mem_cons_self) _ _),
      ih _ fun m' hm' => h m' (List.mem_cons_of_mem m hm')]

theorem replies_begin {ms' : List Message} (k : Nat) (h : ms <+: ms') :
    replies version k ms <+: replies version k ms' := by
  obtain ⟨later, rfl⟩ := h
  rw [replies_append]
  exact List.prefix_append _ _

theorem drain_begin {s t : Bytes} (h : s <+: t) : (decoder.drain s).1 <+: (decoder.drain t).1 := by
  obtain ⟨later, rfl⟩ := h
  rw [decoder.drain_append]
  exact List.prefix_append _ _

theorem not_stop {s t : Bytes} (h : s <+: t) (ht : (decoder.drain t).2 = []) :
    next (decoder.drain s).2 ≠ .stop := by
  intro hstop
  obtain ⟨later, rfl⟩ := h
  rw [decoder.drain_stopped hstop] at ht
  rw [(List.append_eq_nil_iff.mp ht).1] at hstop
  cases hstop

-- ---------------------------------------------------------------------------
-- The server
-- ---------------------------------------------------------------------------

theorem turn_of_message (h : next p.inputBuffer_ = .message m rest) :
    p.onTLVmessageFrom version w (fuel + 1) =
      (Peer.send { p with inputBuffer_ := rest, messages := p.messages ++ [m] }
        (version p.messages.length) m (w p.messages.length)).bind (Peer.onTLVmessageFrom version w fuel) := by
  obtain ⟨len, hle, hlen, hmagic, rfl, rfl⟩ := next_message h
  rw [Peer.onTLVmessageFrom, if_pos ((Nat.le_add_right _ _).trans hle)]
  simp only [hmagic, ne_eq, not_true, if_false, ← hlen]
  rw [if_neg (by omega)]

theorem turn_of_more (h : next p.inputBuffer_ = .more) : p.onTLVmessageFrom version w fuel = some p := by
  cases fuel with
  | zero => rfl
  | succ fuel =>
    simp only [next] at h
    rw [Peer.onTLVmessageFrom]
    split at h
    · rename_i hlen
      rw [if_pos hlen]
      simp only at h ⊢
      split at h
      · cases h
      · rename_i hmagic
        rw [if_neg hmagic]
        split at h
        · exact if_pos ‹_›
        · cases h
    · exact if_neg ‹_›

/-- What a loop over the messages `ms` makes of a server. -/
structure Peer.Answers (version : Nat → UInt8) (p : Peer) (ms : List Message) (left : Bytes) (p' : Peer) :
    Prop where
  owes : Owes p'.conn []
  connected : p'.conn.state_ = .kConnected
  written : p.conn.written <+: p'.conn.written
  messages : p'.messages = p.messages ++ ms
  input : p'.inputBuffer_ = left
  sent : p'.conn.sent = p.conn.sent ++ replies version p.messages.length ms

theorem Peer.answers_of_send (hp : Owes p.conn []) (hc : p.conn.state_ = .kConnected)
    (hsmall : m.body.length < 2 ^ 32) {w : Written}
    (h : Peer.send { p with inputBuffer_ := rest, messages := p.messages ++ [m] }
      (version p.messages.length) m w = some p') : p.Answers version [m] rest p' := by
  simp only [Peer.send, serialise_eq _ _ hsmall, Option.bind_eq_bind, Option.bind_some,
    Option.bind_eq_some_iff, Option.some.injEq] at h
  obtain ⟨conn, hs, rfl⟩ := h
  obtain ⟨hstate, hsent, hwritten⟩ := send_sent (Option.ite_none_right_eq_some.mp hs).2
  rw [if_pos hc] at hsent
  refine ⟨sendOver_owes hp (bytes_length m _ hsmall) hs, hstate.trans hc, hwritten, rfl, rfl, ?_⟩
  rw [hsent, replies, replies, List.append_nil]

theorem Peer.Answers.trans (h : p.Answers version ms left p') (h' : p'.Answers version ms' left' q) :
    p.Answers version (ms ++ ms') left' q := by
  refine ⟨h'.owes, h'.connected, h.written.trans h'.written, ?_, h'.input, ?_⟩
  · rw [h'.messages, h.messages, List.append_assoc]
  · rw [h'.sent, h.sent, h.messages, List.length_append, replies_append, List.append_assoc]

theorem message_small (h : next s = .message m rest) : m.body.length < 2 ^ 32 := by
  obtain ⟨len, hle, hlen, -, rfl, -⟩ := next_message h
  have hdecode := BigEndian.decode_lt (MessageHeader.ofBytes s).length
  have hfour : (MessageHeader.ofBytes s).length.length = 4 := by
    simp only [sizeofMessageHeader] at hle
    simp only [MessageHeader.ofBytes, List.length_take, List.length_drop]
    omega
  rw [hfour] at hdecode
  exact (List.length_take_le _ _).trans_lt (hlen.trans_lt hdecode)

theorem Peer.answers_of_loop (hp : Owes p.conn []) (hc : p.conn.state_ = .kConnected)
    (hstop : next (decoder.drain p.inputBuffer_).2 ≠ .stop) (hfuel : p.inputBuffer_.length ≤ fuel)
    (h : p.onTLVmessageFrom version w fuel = some p') :
    p.Answers version (decoder.drain p.inputBuffer_).1 (decoder.drain p.inputBuffer_).2 p' := by
  induction fuel generalizing p with
  | zero =>
    cases h
    have hnil := List.length_eq_zero_iff.mp (Nat.le_zero.mp hfuel)
    rw [hnil, decoder.drain_waits decoder.waits_nil]
    exact ⟨hp, hc, List.prefix_rfl, (List.append_nil _).symm, hnil, (List.append_nil _).symm⟩
  | succ fuel ih =>
    cases hn : next p.inputBuffer_ with
    | message m rest =>
      have hlt := decoder.shrinks hn
      rw [turn_of_message hn] at h
      obtain ⟨p₁, hsend, h⟩ := Option.bind_eq_some_iff.mp h
      have hfirst := Peer.answers_of_send hp hc (message_small hn) hsend
      rw [decoder.drain_message hn] at hstop ⊢
      have hrest := ih hfirst.owes hfirst.connected (by rw [hfirst.input]; exact hstop)
        (by rw [hfirst.input]; omega) h
      rw [hfirst.input] at hrest
      exact hfirst.trans hrest
    | more =>
      rw [turn_of_more hn] at h
      cases h
      rw [decoder.drain_waits (decoder.waits_of_more hn)]
      exact ⟨hp, hc, List.prefix_rfl, (List.append_nil _).symm, rfl, (List.append_nil _).symm⟩
    | stop =>
      rw [decoder.drain_waits (decoder.waits_of_stop hn)] at hstop
      exact absurd hn hstop

-- ---------------------------------------------------------------------------
-- Both ends
-- ---------------------------------------------------------------------------

namespace Echo

variable {s t : Echo} {e : Event}

structure Inv (version : Nat → UInt8) (s : Echo) : Prop where
  client : Owes s.client []
  stream : s.client.sent = s.sent.flatMap fun m => m.2.bytes m.1
  small : ∀ m ∈ s.sent, m.2.body.length < 2 ^ 32
  arrived : s.arrived ≤ s.client.written.length
  server : Owes s.server.conn []
  connected : s.server.conn.state_ = .kConnected
  decoded : decoder.drain (s.client.written.take s.arrived) = (s.server.messages, s.server.inputBuffer_)
  replied : s.server.conn.sent = replies version 0 s.server.messages
  returned : s.returned ≤ s.server.conn.written.length

theorem Inv.drain_stream (hi : Inv version s) : decoder.drain s.client.sent = (s.sent.map Prod.snd, []) := by
  rw [hi.stream]
  exact decoder.drain_encoded s.sent fun m hm => decoder_message (hi.small m hm) m.1

theorem Inv.written (hi : Inv version s) : s.client.written <+: s.client.sent :=
  ⟨s.client.outputBuffer_.readable, by simpa using hi.client.stream⟩

theorem Inv.client_grows (hi : Inv version s) {client : TcpConnection} (ho : Owes client [])
    (hw : s.client.written <+: client.written) {sent : List (UInt8 × Message)}
    (hstream : client.sent = sent.flatMap fun m => m.2.bytes m.1)
    (hsmall : ∀ m ∈ sent, m.2.body.length < 2 ^ 32) : Inv version { s with client, sent } := by
  obtain ⟨more, hmore⟩ := hw
  refine ⟨ho, hstream, hsmall, ?_, hi.server, hi.connected, ?_, hi.replied, hi.returned⟩
  · rw [← hmore, List.length_append]
    exact Nat.le_add_right_of_le hi.arrived
  · simp only [← hmore, List.take_append_of_le_length hi.arrived, hi.decoded]

theorem Inv.send (hi : Inv version s) {w : Written} (h : s.step version (.send byte m w) = some t) :
    Inv version t := by
  simp only [step, Option.ite_none_right_eq_some] at h
  obtain ⟨hsmall, h⟩ := h
  simp only [serialise_eq byte m hsmall, Option.bind_eq_bind, Option.bind_some, Option.bind_eq_some_iff,
    Option.some.injEq] at h
  obtain ⟨client, hs, rfl⟩ := h
  have howes := sendOver_owes hi.client (bytes_length m byte hsmall) hs
  obtain ⟨-, hsent, hwritten⟩ := send_sent (Option.ite_none_right_eq_some.mp hs).2
  refine hi.client_grows howes hwritten ?_ ?_
  · rw [hsent, hi.stream]
    split
    · simp
    · rfl
  · intro m' hm'
    split at hm'
    · rcases List.mem_append.mp hm' with hm' | hm'
      · exact hi.small m' hm'
      · cases List.mem_singleton.mp hm'
        exact hsmall
    · exact hi.small m' hm'

theorem Inv.next_read (hi : Inv version s) (hdata : (s.client.written.drop s.arrived).take n = data) :
    decoder.drain (s.client.written.take (s.arrived + n)) =
        (s.server.messages ++ (decoder.drain (s.server.inputBuffer_ ++ data)).1,
          (decoder.drain (s.server.inputBuffer_ ++ data)).2) ∧
      next (decoder.drain (s.server.inputBuffer_ ++ data)).2 ≠ .stop := by
  have hread : decoder.drain (s.client.written.take (s.arrived + n)) =
      (s.server.messages ++ (decoder.drain (s.server.inputBuffer_ ++ data)).1,
        (decoder.drain (s.server.inputBuffer_ ++ data)).2) := by
    rw [List.take_add, hdata, decoder.drain_append, hi.decoded]
  have hstop : next (decoder.drain (s.client.written.take (s.arrived + n))).2 ≠ .stop :=
    not_stop ((List.take_prefix _ _).trans hi.written) (by rw [hi.drain_stream])
  rw [hread] at hstop
  exact ⟨hread, hstop⟩

theorem Inv.serverRead (hi : Inv version s) (h : s.step version (.serverRead n w) = some t) :
    Inv version t := by
  simp only [step, Option.ite_none_right_eq_some, Option.bind_eq_bind, Option.bind_eq_some_iff,
    Option.some.injEq] at h
  obtain ⟨⟨-, hle⟩, server, hs, rfl⟩ := h
  set data := (s.client.written.drop s.arrived).take n with hdata
  obtain ⟨hread, hstop⟩ := hi.next_read hdata.symm
  have hanswers := Peer.answers_of_loop (p := { s.server with inputBuffer_ := s.server.inputBuffer_ ++ data })
    hi.server hi.connected hstop (Nat.le_refl _) hs
  refine ⟨hi.client, hi.stream, hi.small, hle, hanswers.owes, hanswers.connected, ?_, ?_, ?_⟩
  · rw [hread, hanswers.messages, hanswers.input]
  · rw [hanswers.sent, hanswers.messages, replies_append, hi.replied, Nat.zero_add]
  · exact hi.returned.trans hanswers.written.length_le

theorem Inv.step (hi : Inv version s) (h : s.step version e = some t) : Inv version t := by
  cases e with
  | send byte m w => exact hi.send h
  | shutdown =>
    simp only [Echo.step, Option.some.injEq] at h
    subst h
    obtain ⟨hsent, hwritten⟩ := shutdown_frame s.client
    exact hi.client_grows hi.client.shutdown (hwritten ▸ List.prefix_rfl) (hsent.trans hi.stream) hi.small
  | clientWrite w =>
    obtain ⟨-, h⟩ := Option.ite_none_right_eq_some.mp h
    cases h
    have hgrows := grows_handleWrite s.client w
    exact hi.client_grows hi.client.handleWrite hgrows.written (hgrows.sent.trans hi.stream) hi.small
  | serverRead n w => exact hi.serverRead h
  | serverWrite w =>
    obtain ⟨-, h⟩ := Option.ite_none_right_eq_some.mp h
    cases h
    have hgrows := grows_handleWrite s.server.conn w
    exact ⟨hi.client, hi.stream, hi.small, hi.arrived, hi.server.handleWrite, hgrows.state_.trans hi.connected,
      hi.decoded, hgrows.sent.trans hi.replied, hi.returned.trans hgrows.written.length_le⟩
  | clientRead n =>
    obtain ⟨⟨-, hle⟩, h⟩ := Option.ite_none_right_eq_some.mp h
    cases h
    exact ⟨hi.client, hi.stream, hi.small, hi.arrived, hi.server, hi.connected, hi.decoded, hi.replied, hle⟩

theorem inv_init (mark : Nat) (complete high : Bool) : Inv version (init mark complete high) where
  client := owes_established
  stream := rfl
  small _ hm := absurd hm List.not_mem_nil
  arrived := Nat.le_refl _
  server := owes_established
  connected := rfl
  decoded := decoder.drain_waits decoder.waits_nil
  replied := rfl
  returned := Nat.le_refl _

theorem Inv.decoded_begin (hi : Inv version s) : s.server.messages <+: s.sent.map Prod.snd := by
  have hbegin := drain_begin ((List.take_prefix s.arrived s.client.written).trans hi.written)
  rwa [hi.decoded, hi.drain_stream] at hbegin

theorem Inv.received_begin (hi : Inv version s) : s.received <+: replies version 0 s.server.messages := by
  have hwritten : s.server.conn.written <+: s.server.conn.sent :=
    ⟨s.server.conn.outputBuffer_.readable, by simpa using hi.server.stream⟩
  rw [← hi.replied]
  exact (List.take_prefix _ _).trans hwritten

theorem Inv.small_messages (hi : Inv version s) : ∀ m ∈ s.server.messages, m.body.length < 2 ^ 32 := by
  intro m hm
  obtain ⟨m', hm', rfl⟩ := List.mem_map.mp (hi.decoded_begin.subset hm)
  exact hi.small m' hm'

theorem Inv.atRest (hi : Inv version s) (hrest : AtRest s) :
    s.server.messages = s.sent.map Prod.snd ∧ s.server.inputBuffer_ = [] ∧
      s.received = replies version 0 (s.sent.map Prod.snd) := by
  have hclient : s.client.written = s.client.sent := by simpa [hrest.written] using hi.client.stream
  have hserver : s.server.conn.written = s.server.conn.sent := by
    simpa [hrest.answered] using hi.server.stream
  have hdecoded := hi.decoded
  rw [hrest.arrived, List.take_length, hclient, hi.drain_stream, Prod.mk.injEq] at hdecoded
  refine ⟨hdecoded.1.symm, hdecoded.2.symm, ?_⟩
  rw [Echo.received, hrest.returned, List.take_length, hserver, hi.replied, hdecoded.1]

theorem echoes (h : Reach (step version) Always (init mark complete high) s) : Echoes version s := by
  have hi : Inv version s := h.invariant (inv_init mark complete high) fun _ _ _ hi _ hs => hi.step hs
  refine ⟨hi.connected, hi.decoded_begin, ?_, ?_, fun hrest => ?_⟩
  · exact hi.received_begin.trans (replies_begin 0 hi.decoded_begin)
  · have hbegin := drain_begin hi.received_begin
    rwa [drain_replies 0 hi.small_messages] at hbegin
  · obtain ⟨hmessages, hinput, hreceived⟩ := hi.atRest hrest
    refine ⟨hmessages, hinput, hreceived, ?_⟩
    rw [hreceived]
    exact drain_replies 0 (hmessages ▸ hi.small_messages)

/-- Two messages, of which the second waits behind the first and arrives in two reads. -/
def twoMessages : List Event :=
  [.send 0 ⟨7, [1, 2]⟩ (.bytes 5), .send 3 ⟨9, []⟩ (.bytes 0), .clientWrite (.bytes 19),
    .serverRead 20 fun _ => .bytes 4, .serverRead 4 fun _ => .error .EWOULDBLOCK,
    .serverWrite (.bytes 20), .clientRead 24]

theorem echoes_two : ∃ s, exec (step fun _ => 0) Always (init 4 true true) twoMessages = some s ∧
    s.sent.map Prod.snd = [⟨7, [1, 2]⟩, ⟨9, []⟩] ∧ AtRest s ∧ Echoes (fun _ => 0) s := by
  have hrun : (exec (step fun _ => 0) Always (init 4 true true) twoMessages).any (fun s =>
      s.sent.map Prod.snd = [⟨7, [1, 2]⟩, ⟨9, []⟩] ∧ s.client.outputBuffer_.readable = [] ∧
        s.arrived = s.client.written.length ∧ s.server.conn.outputBuffer_.readable = [] ∧
          s.returned = s.server.conn.written.length) = true := by
    decide +kernel
  obtain ⟨s, hs, hall⟩ := (Option.any_eq_true _ _).mp hrun
  obtain ⟨hsent, hwritten, harrived, hanswered, hreturned⟩ := of_decide_eq_true hall
  exact ⟨s, hs, hsent, ⟨hwritten, harrived, hanswered, hreturned⟩, echoes (.of_exec hs)⟩

end Echo

-- ---------------------------------------------------------------------------
-- Coming to rest
-- ---------------------------------------------------------------------------

section
variable {conn : TcpConnection}

theorem flushed_outputBuffer_ (conn : TcpConnection) : conn.flushed.outputBuffer_ = conn.outputBuffer_ := by
  have hs : TcpConnection.Same conn.disableWriting conn.disableWriting.queueWriteComplete :=
    TcpConnection.same_queueWriteComplete
  unfold TcpConnection.flushed
  split
  · dsimp only
    split
    · unfold TcpConnection.shutdownInLoop
      split <;> exact hs.outputBuffer_
    · exact hs.outputBuffer_
  · rfl

theorem handleWrite_all (h : Owes conn []) :
    (conn.handleWrite (.bytes conn.outputBuffer_.readableBytes)).outputBuffer_.readable = [] := by
  have hlen := h.sound.ok.length_readable h.sound.size_lt
  have hread : (conn.outputBuffer_.retrieve conn.outputBuffer_.readableBytes).readable =
      conn.outputBuffer_.readable.drop conn.outputBuffer_.readableBytes :=
    h.sound.ok.retrieve_readable h.sound.size_lt
  unfold TcpConnection.handleWrite
  split
  · rename_i hwriting
    have hpos := List.length_pos_iff.mpr (h.interest.mp hwriting)
    dsimp only
    rw [if_pos (by omega), flushed_outputBuffer_]
    unfold TcpConnection.flush
    dsimp only
    rw [hread, ← hlen, List.drop_length]
  · rename_i hwriting
    exact not_not.mp (mt h.interest.mpr hwriting)

theorem sendOver_all (h : Owes conn []) (hc : conn.state_ = .kConnected)
    (hempty : conn.outputBuffer_.readable = []) (data : Bytes) : ∃ conn',
    sendOver conn data (.bytes data.length) = some conn' ∧ conn'.outputBuffer_.readable = [] := by
  have hwriting : conn.writing = false := by
    cases hw : conn.writing with
    | false => rfl
    | true => exact absurd hempty (h.interest.mp hw)
  have hzero := h.sound.readable_eq_nil.mp hempty
  set conn₁ := { conn with sent := conn.sent ++ data } with hconn₁
  have hnow : conn₁.writeNow data (.bytes data.length) =
      ((conn₁.take (data.take data.length)).queueWriteComplete, data.length, false) := by
    simp [TcpConnection.writeNow]
  have hs : TcpConnection.Same (conn₁.take (data.take data.length)) _ := TcpConnection.same_queueWriteComplete
  refine ⟨(conn₁.take (data.take data.length)).queueWriteComplete, ?_, ?_⟩
  · have hfits : (Written.bytes data.length).Fits data.length := Nat.le_refl _
    have hne : conn₁.state_ ≠ .kDisconnected := by rw [hconn₁, hc]; decide
    have hdirect : (!conn₁.writing && conn₁.outputBuffer_.readableBytes = 0) = true := by
      rw [hconn₁]
      simp [hwriting, hzero]
    rw [sendOver, if_pos hfits, TcpConnection.send, if_pos hc, ← hconn₁, TcpConnection.sendInLoop,
      if_neg hne, if_pos hdirect, hnow]
    simp
  · rw [hs.outputBuffer_]
    exact hempty

end

def Takes (version : Nat → UInt8) (w : Nat → Written) (k : Nat) (ms : List Message) : Prop :=
  ∀ i m, ms[i]? = some m → w (k + i) = .bytes (m.bytes (version (k + i))).length

theorem Takes.tail (h : Takes version w k (m :: ms)) : Takes version w (k + 1) ms := by
  intro i m' hm'
  rw [Nat.add_assoc, Nat.add_comm 1]
  exact h (i + 1) m' hm'

theorem Peer.send_all (hp : Owes p.conn []) (hc : p.conn.state_ = .kConnected)
    (hempty : p.conn.outputBuffer_.readable = []) (hsmall : m.body.length < 2 ^ 32) (byte : UInt8) :
    ∃ conn, p.send byte m (.bytes (m.bytes byte).length) = some { p with conn } ∧
      conn.outputBuffer_.readable = [] := by
  obtain ⟨conn, hs, hnone⟩ := sendOver_all hp hc hempty (m.bytes byte)
  refine ⟨conn, ?_, hnone⟩
  simp only [Peer.send, serialise_eq _ _ hsmall, Option.bind_eq_bind, Option.bind_some, hs]

theorem Peer.loop_all (hp : Owes p.conn []) (hc : p.conn.state_ = .kConnected)
    (hempty : p.conn.outputBuffer_.readable = []) (hstop : next (decoder.drain p.inputBuffer_).2 ≠ .stop)
    (hfuel : p.inputBuffer_.length ≤ fuel)
    (hw : Takes version w p.messages.length (decoder.drain p.inputBuffer_).1) :
    ∃ p', p.onTLVmessageFrom version w fuel = some p' ∧ p'.conn.outputBuffer_.readable = [] := by
  induction fuel generalizing p with
  | zero => exact ⟨p, rfl, hempty⟩
  | succ fuel ih =>
    cases hn : next p.inputBuffer_ with
    | message m rest =>
      have hlt := decoder.shrinks hn
      have hsmall := message_small hn
      rw [decoder.drain_message hn] at hstop hw
      have hfirst : w p.messages.length = .bytes (m.bytes (version p.messages.length)).length := hw 0 m rfl
      obtain ⟨conn, hsend, hnone⟩ := Peer.send_all
        (p := { p with inputBuffer_ := rest, messages := p.messages ++ [m] }) hp hc hempty hsmall
        (version p.messages.length)
      have hanswers := Peer.answers_of_send hp hc hsmall hsend
      obtain ⟨p', hloop, hrest⟩ := ih (p := { conn, inputBuffer_ := rest, messages := p.messages ++ [m] })
        hanswers.owes hanswers.connected hnone hstop (by simp only; omega)
        (by simpa using hw.tail)
      exact ⟨p', by rw [turn_of_message hn, hfirst, hsend]; exact hloop, hrest⟩
    | more => exact ⟨p, turn_of_more hn, hempty⟩
    | stop =>
      rw [decoder.drain_waits (decoder.waits_of_stop hn)] at hstop
      exact absurd hn hstop

namespace Echo

variable {s t : Echo} {e : Event}

/-- Only what was sent goes on, in reads that every input buffer has room for. -/
def Moves (_ : Echo) : Event → Prop
  | .send .. | .shutdown => False
  | .serverRead n _ | .clientRead n => n ≤ Buffer.extraSize
  | .clientWrite _ | .serverWrite _ => True

theorem reach_moves (h1 : s.step version e = some t) (hm : Moves s e) : Reach (step version) Moves s t :=
  .tail .refl hm h1

theorem Inv.write_all (hi : Inv version s) : ∃ t, Reach (Echo.step version) Moves s t ∧ Inv version t ∧
    t.sent = s.sent ∧ t.client.outputBuffer_.readable = [] ∧ t.server.conn.outputBuffer_.readable = [] := by
  have hclient := handleWrite_all hi.client
  have hserver := handleWrite_all hi.server
  have h1 : s.step version (.clientWrite (.bytes s.client.outputBuffer_.readableBytes)) =
      some { s with client := s.client.handleWrite (.bytes s.client.outputBuffer_.readableBytes) } :=
    if_pos (Nat.le_refl _ : Written.Fits _ (.bytes _))
  have hi1 := hi.step h1
  set s₁ := { s with client := s.client.handleWrite (.bytes s.client.outputBuffer_.readableBytes) }
  have h2 : s₁.step version (.serverWrite (.bytes s.server.conn.outputBuffer_.readableBytes)) =
      some { s₁ with server := { s.server with
        conn := s.server.conn.handleWrite (.bytes s.server.conn.outputBuffer_.readableBytes) } } :=
    if_pos (Nat.le_refl _ : Written.Fits _ (.bytes _))
  exact ⟨_, (reach_moves h1 trivial).trans (reach_moves h2 trivial), hi1.step h2, rfl, hclient, hserver⟩

theorem Inv.read_some (hi : Inv version s) (hserver : s.server.conn.outputBuffer_.readable = [])
    (hpos : 0 < n) (hle : s.arrived + n ≤ s.client.written.length) : ∃ w server,
    s.step version (.serverRead n w) = some { s with server, arrived := s.arrived + n } ∧
      server.conn.outputBuffer_.readable = [] := by
  set data := (s.client.written.drop s.arrived).take n with hdata
  obtain ⟨hread, hstop⟩ := hi.next_read hdata.symm
  have hbegin := drain_begin ((List.take_prefix (s.arrived + n) s.client.written).trans hi.written)
  rw [hread, hi.drain_stream] at hbegin
  obtain ⟨later, hlater⟩ : s.server.messages ++ (decoder.drain (s.server.inputBuffer_ ++ data)).1 <+:
    s.sent.map Prod.snd := hbegin
  -- The room that each answer finds, by its place among all of them.
  let w : Nat → Written := fun k =>
    .bytes (((s.sent.map Prod.snd)[k]?.map fun m => (m.bytes (version k)).length).getD 0)
  have hw : Takes version w s.server.messages.length (decoder.drain (s.server.inputBuffer_ ++ data)).1 := by
    intro i m hm
    have hplace : (s.sent.map Prod.snd)[s.server.messages.length + i]? = some m := by
      obtain ⟨hlt, -⟩ := List.getElem?_eq_some_iff.mp hm
      rw [← hlater, List.append_assoc, List.getElem?_append_right (Nat.le_add_right _ _),
        Nat.add_sub_cancel_left, List.getElem?_append_left hlt, hm]
    simp only [w, hplace, Option.map_some, Option.getD_some]
  obtain ⟨server, hloop, hnone⟩ := Peer.loop_all
    (p := { s.server with inputBuffer_ := s.server.inputBuffer_ ++ data }) hi.server hi.connected hserver
    hstop (Nat.le_refl _) hw
  refine ⟨w, server, ?_, hnone⟩
  simp only [Echo.step, hpos, hle, and_self, if_true, ← hdata, Peer.handleRead, hloop, Option.bind_eq_bind,
    Option.bind_some]

theorem Inv.read_all (hi : Inv version s) (hserver : s.server.conn.outputBuffer_.readable = []) :
    ∃ t, Reach (Echo.step version) Moves s t ∧ Inv version t ∧ t.sent = s.sent ∧ t.client = s.client ∧
      t.arrived = t.client.written.length ∧ t.server.conn.outputBuffer_.readable = [] := by
  generalize hgap : s.client.written.length - s.arrived = gap
  induction gap using Nat.strongRecOn generalizing s with
  | ind gap ih =>
    have hle := hi.arrived
    rcases Nat.eq_zero_or_pos gap with hzero | hpos
    · exact ⟨s, .refl, hi, rfl, rfl, by omega, hserver⟩
    · have hn : 0 < min gap Buffer.extraSize := Nat.lt_min.mpr ⟨hpos, by decide⟩
      have hmin := Nat.min_le_left gap Buffer.extraSize
      obtain ⟨w, server, h1, hnone⟩ := hi.read_some hserver hn (by omega)
      obtain ⟨t, ht, hit, hsent, hclient, hrest⟩ :=
        ih (gap - min gap Buffer.extraSize) (by omega) (hi.step h1) hnone (by simp only; omega)
      exact ⟨t, (reach_moves h1 (Nat.min_le_right _ _)).trans ht, hit, hsent, hclient, hrest⟩

theorem Inv.receive_all (hi : Inv version s) : ∃ t, Reach (Echo.step version) Moves s t ∧
    Inv version t ∧ t = { s with returned := s.server.conn.written.length } := by
  generalize hgap : s.server.conn.written.length - s.returned = gap
  induction gap using Nat.strongRecOn generalizing s with
  | ind gap ih =>
    have hle := hi.returned
    rcases Nat.eq_zero_or_pos gap with hzero | hpos
    · have hall : s.returned = s.server.conn.written.length := by omega
      exact ⟨s, .refl, hi, by rw [← hall]⟩
    · have hn : 0 < min gap Buffer.extraSize := Nat.lt_min.mpr ⟨hpos, by decide⟩
      have hmin := Nat.min_le_left gap Buffer.extraSize
      have h1 : s.step version (.clientRead (min gap Buffer.extraSize)) =
          some { s with returned := s.returned + min gap Buffer.extraSize } := if_pos ⟨hn, by omega⟩
      obtain ⟨t, ht, hit, hlast⟩ :=
        ih (gap - min gap Buffer.extraSize) (by omega) (hi.step h1) (by simp only; omega)
      exact ⟨t, (reach_moves h1 (Nat.min_le_right _ _)).trans ht, hit, hlast⟩

/-- Writes and reads alone can always bring both ends to rest, with every message echoed. -/
theorem comes_to_rest (h : Reach (step version) Always (init mark complete high) s) :
    ∃ t, Reach (step version) Moves s t ∧ AtRest t ∧ t.server.messages = s.sent.map Prod.snd ∧
      t.received = replies version 0 (s.sent.map Prod.snd) := by
  have hi : Inv version s := h.invariant (inv_init mark complete high) fun _ _ _ hi _ hs => hi.step hs
  obtain ⟨s₁, h1, hi1, hsent1, hclient, hserver⟩ := hi.write_all
  obtain ⟨s₂, h2, hi2, hsent2, hsame, harrived, hanswered⟩ := hi1.read_all hserver
  obtain ⟨s₃, h3, hi3, hlast⟩ := hi2.receive_all
  have hrest : AtRest s₃ := by
    rw [hlast]
    exact ⟨hsame ▸ hclient, harrived, hanswered, rfl⟩
  have hsent3 : s₃.sent = s.sent := by
    rw [hlast]
    exact hsent2.trans hsent1
  obtain ⟨hmessages, -, hreceived⟩ := hi3.atRest hrest
  exact ⟨s₃, (h1.trans h2).trans h3, hrest, hsent3 ▸ hmessages, hsent3 ▸ hreceived⟩

/-- The first message is answered in part, and the second has come in part. -/
theorem comes_to_rest_two : ∃ s,
    exec (step fun _ => 0) Always (init 4 true true) (twoMessages.take 4) = some s ∧
      s.server.messages.length = 1 ∧ ∃ t, Reach (step fun _ => 0) Moves s t ∧ AtRest t ∧
        t.server.messages = s.sent.map Prod.snd ∧
          t.received = replies (fun _ => 0) 0 (s.sent.map Prod.snd) := by
  have hrun : (exec (step fun _ => 0) Always (init 4 true true) (twoMessages.take 4)).any (fun s =>
      s.server.messages.length = 1) = true := by
    decide +kernel
  obtain ⟨s, hs, hone⟩ := (Option.any_eq_true _ _).mp hrun
  exact ⟨s, hs, of_decide_eq_true hone, comes_to_rest (.of_exec hs)⟩

end Echo

end VortexNet.TLVCodec
