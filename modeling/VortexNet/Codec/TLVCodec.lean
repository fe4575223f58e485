import VortexNet.Lib.BigEndian
import VortexNet.Lib.Framing
import VortexNet.Utils.Buffer

/-!
# The TLV codec

`Codec/TLVCodec.cc` and `protocol.h`. A header is packed: magic, version, length
and type, the numbers in network order. `send` leaves the version of its header
unset; `version` gives the byte that is there, for each message in turn. The
input buffer is its readable bytes, and `conn->send` of a `Buffer` sends them.
-/

namespace VortexNet

open Framing Windows

namespace TLVCodec

def PROTOCOL_MAGIC : Nat := 0x12345678

def htonl (n : Nat) : Bytes := BigEndian.encode 4 n
def htons (n : Nat) : Bytes := BigEndian.encode 2 n
def ntohl (b : Bytes) : Nat := BigEndian.decode b
def ntohs (b : Bytes) : Nat := BigEndian.decode b

structure MessageHeader where
  magic : Bytes
  version : UInt8
  length : Bytes
  type : Bytes

def sizeofMessageHeader : Nat := 11

def MessageHeader.bytes (header : MessageHeader) : Bytes :=
  header.magic ++ header.version :: (header.length ++ header.type)

def MessageHeader.ofBytes (buf : Bytes) : MessageHeader where
  magic := buf.take 4
  version := buf.getD 4 0
  length := (buf.drop 5).take 4
  type := (buf.drop 9).take 2

structure Message where
  type : UInt16
  body : Bytes
  deriving DecidableEq

/-- The part of a `TcpConnection` that the codec works on, with the messages decoded so far;
`connected` is `state_ == kConnected`. -/
structure Connection where
  connected : Bool := true
  inputBuffer_ : Bytes := []
  output : Bytes := []
  messages : List Message := []
  deriving DecidableEq

def Connection.send (conn : Connection) (data : Bytes) : Connection :=
  if conn.connected then { conn with output := conn.output ++ data } else conn

def Connection.shutdown (conn : Connection) : Connection := { conn with connected := false }

def serialise (version : UInt8) (m : Message) : Option Bytes := do
  let header : MessageHeader := {
    magic := htonl PROTOCOL_MAGIC, version, length := htonl m.body.length, type := htons m.type.toNat }
  let buf ← ({} : Buffer).append header.bytes sizeofMessageHeader
  let buf ← buf.append m.body m.body.length
  some buf.readable

def send (version : UInt8) (conn : Connection) (m : Message) : Option Connection :=
  (serialise version m).map conn.send

/-- The loop of `onTLVmessage`; a turn that goes on takes a header off the buffer. -/
def onTLVmessageFrom (version : Nat → UInt8) : Nat → Connection → Option Connection
  | 0, conn => some conn
  | fuel + 1, conn =>
    if sizeofMessageHeader ≤ conn.inputBuffer_.length then
      let header := MessageHeader.ofBytes conn.inputBuffer_
      if ntohl header.magic ≠ PROTOCOL_MAGIC then some conn.shutdown
      else
        let len := ntohl header.length
        let type := UInt16.ofNat (ntohs header.type)
        if conn.inputBuffer_.length < len + sizeofMessageHeader then some conn
        else
          let buf := conn.inputBuffer_.drop sizeofMessageHeader
          let m : Message := { type, body := buf.take len }
          let conn' := { conn with inputBuffer_ := buf.drop len, messages := conn.messages ++ [m] }
          (send (version conn.messages.length) conn' m).bind (onTLVmessageFrom version fuel)
    else some conn

def onTLVmessage (version : Nat → UInt8) (conn : Connection) : Option Connection :=
  onTLVmessageFrom version conn.inputBuffer_.length conn

/-- `TcpConnection::handleRead`. -/
def handleRead (version : Nat → UInt8) (conn : Connection) (data : Bytes) : Option Connection :=
  onTLVmessage version { conn with inputBuffer_ := conn.inputBuffer_ ++ data }

/-- A connection from its first read on. -/
def run (version : Nat → UInt8) (reads : List Bytes) : Option Connection :=
  reads.foldlM (handleRead version) {}

-- ---------------------------------------------------------------------------
-- One message
-- ---------------------------------------------------------------------------

variable {version : Nat → UInt8} {conn : Connection} {m : Message} {s t : Bytes}

def next (s : Bytes) : Next UInt8 Message :=
  if sizeofMessageHeader ≤ s.length then
    let header := MessageHeader.ofBytes s
    if ntohl header.magic ≠ PROTOCOL_MAGIC then .stop
    else
      let len := ntohl header.length
      if s.length < len + sizeofMessageHeader then .more
      else .message ⟨UInt16.ofNat (ntohs header.type), (s.drop sizeofMessageHeader).take len⟩
        ((s.drop sizeofMessageHeader).drop len)
  else .more

theorem ofBytes_append (h : sizeofMessageHeader ≤ s.length) (t : Bytes) :
    MessageHeader.ofBytes (s ++ t) = MessageHeader.ofBytes s := by
  simp only [sizeofMessageHeader] at h
  simp only [MessageHeader.ofBytes, MessageHeader.mk.injEq]
  refine ⟨?_, ?_, ?_, ?_⟩
  · exact List.take_append_of_le_length (by omega)
  · rw [List.getD_eq_getElem?_getD, List.getElem?_append_left (by omega), List.getD_eq_getElem?_getD]
  · rw [List.drop_append_of_le_length (by omega), List.take_append_of_le_length (by simp; omega)]
  · rw [List.drop_append_of_le_length (by omega), List.take_append_of_le_length (by simp; omega)]

theorem next_message (h : next s = .message m rest) :
    ∃ len, sizeofMessageHeader + len ≤ s.length ∧ len = ntohl (MessageHeader.ofBytes s).length ∧
      ntohl (MessageHeader.ofBytes s).magic = PROTOCOL_MAGIC ∧
      m = ⟨UInt16.ofNat (ntohs (MessageHeader.ofBytes s).type),
        (s.drop sizeofMessageHeader).take len⟩ ∧
      rest = (s.drop sizeofMessageHeader).drop len := by
  simp only [next] at h
  split at h
  · split at h
    · cases h
    · rename_i hmagic
      split at h
      · cases h
      · cases h
        exact ⟨_, by omega, rfl, not_not.mp hmagic, rfl, rfl⟩
  · cases h

theorem next_of_header (hlen : sizeofMessageHeader ≤ s.length)
    (hmagic : ntohl (MessageHeader.ofBytes s).magic = PROTOCOL_MAGIC)
    (hbody : ntohl (MessageHeader.ofBytes s).length + sizeofMessageHeader ≤ s.length) :
    next s = .message ⟨UInt16.ofNat (ntohs (MessageHeader.ofBytes s).type),
        (s.drop sizeofMessageHeader).take (ntohl (MessageHeader.ofBytes s).length)⟩
      ((s.drop sizeofMessageHeader).drop (ntohl (MessageHeader.ofBytes s).length)) := by
  simp only [next, if_pos hlen]
  rw [if_neg (not_not.mpr hmagic), if_neg (Nat.not_lt.mpr hbody)]

theorem next_stop : next s = .stop ↔ sizeofMessageHeader ≤ s.length ∧
    ntohl (MessageHeader.ofBytes s).magic ≠ PROTOCOL_MAGIC := by
  simp only [next]
  split
  · split
    · simp_all
    · split <;> simp_all
  · rename_i hshort
    simp [hshort]

def decoder : Decoder UInt8 Message where
  next := next
  shrinks h := by
    obtain ⟨len, hle, -, -, -, rfl⟩ := next_message h
    simp only [sizeofMessageHeader, List.length_drop] at hle ⊢
    omega
  message_append h t := by
    obtain ⟨len, hle, hlen, hmagic, rfl, rfl⟩ := next_message h
    have hle' : sizeofMessageHeader ≤ _ := (Nat.le_add_right _ _).trans hle
    have hbytes := ofBytes_append hle' t
    rw [next_of_header (by simp; omega) (hbytes ▸ hmagic) (by rw [hbytes, ← hlen]; simp; omega),
      hbytes, ← hlen, List.drop_append_of_le_length hle', List.take_append_of_le_length (by simp; omega),
      List.drop_append_of_le_length (by simp; omega)]
  stop_append h t := by
    obtain ⟨hle, hmagic⟩ := next_stop.mp h
    exact next_stop.mpr ⟨by simp; omega, (ofBytes_append hle t).symm ▸ hmagic⟩

-- ---------------------------------------------------------------------------
-- Serialised messages
-- ---------------------------------------------------------------------------

/-- A message as it goes over the connection. -/
def Message.bytes (m : Message) (version : UInt8) : Bytes :=
  htonl PROTOCOL_MAGIC ++ version :: (htonl m.body.length ++ htons m.type.toNat) ++ m.body

theorem serialise_eq (version : UInt8) (m : Message) (h : m.body.length < 2 ^ 32) :
    serialise version m = some (m.bytes version) := by
  set header : MessageHeader := {
    magic := htonl PROTOCOL_MAGIC, version, length := htonl m.body.length, type := htons m.type.toNat }
    with hheader
  have hlen : header.bytes.length = sizeofMessageHeader := by
    simp [hheader, MessageHeader.bytes, htonl, htons, sizeofMessageHeader]
  have hfirst : ({} : Buffer).append header.bytes header.bytes.length =
      some (({} : Buffer).store header.bytes) :=
    Buffer.fresh_ok.append_fits Buffer.fresh_size (by rw [Buffer.fresh_length, hlen]; decide)
  rw [hlen] at hfirst
  have hroom : ({} : Buffer).writerIndex_ + header.bytes.length ≤ ({} : Buffer).buffer_.length := by
    rw [Buffer.fresh_length, hlen]
    decide
  have hok := Buffer.fresh_ok.store_ok hroom
  have hsize := (length_overwrite hroom).trans_le Buffer.fresh_size
  have hb := hok.append hsize (List.take_length (l := m.body)) (by omega)
  obtain ⟨-, hread, -⟩ := hok.extend hsize (by omega : m.body.length ≤ 2 ^ 63)
  have hempty : ({} : Buffer).readable = [] := window_self
  rw [Buffer.fresh_ok.store_readable, hempty, List.nil_append] at hread
  simp only [serialise, ← hheader, hfirst, Option.bind_eq_bind, Option.bind_some, hb, hread]
  simp [hheader, MessageHeader.bytes, Message.bytes]

theorem ntohl_htonl (h : n < 2 ^ 32) : ntohl (htonl n) = n :=
  (BigEndian.decode_encode 4 n).trans (Nat.mod_eq_of_lt h)

theorem ntohs_htons (type : UInt16) : UInt16.ofNat (ntohs (htons type.toNat)) = type := by
  have h : type.toNat < 256 ^ 2 := type.toNat_lt
  rw [ntohs, htons, BigEndian.decode_encode, Nat.mod_eq_of_lt h, UInt16.ofNat_toNat]

theorem ofBytes_bytes (m : Message) (version : UInt8) (t : Bytes) :
    MessageHeader.ofBytes (m.bytes version ++ t) = {
      magic := htonl PROTOCOL_MAGIC
      version
      length := htonl m.body.length
      type := htons m.type.toNat } := by
  simp [MessageHeader.ofBytes, Message.bytes, htonl, htons, BigEndian.encode]

theorem next_bytes (h : m.body.length < 2 ^ 32) (version : UInt8) (t : Bytes) :
    next (m.bytes version ++ t) = .message m t := by
  have hheader := ofBytes_bytes m version t
  have hlen : (m.bytes version ++ t).length = sizeofMessageHeader + (m.body ++ t).length := by
    simp [Message.bytes, htonl, htons, sizeofMessageHeader]
    omega
  have hdrop : (m.bytes version ++ t).drop sizeofMessageHeader = m.body ++ t := by
    simp [Message.bytes, htonl, htons, BigEndian.encode, sizeofMessageHeader]
  have hbody := ntohl_htonl h
  rw [next_of_header, hheader, hdrop]
  · simp only [hbody, ntohs_htons, List.take_left, List.drop_left]
  · omega
  · rw [hheader]
    exact ntohl_htonl (by decide)
  · rw [hheader, hlen, hbody, List.length_append]
    omega

-- ---------------------------------------------------------------------------
-- A connection
-- ---------------------------------------------------------------------------

/-- What is sent back for messages, of which `k` have gone before. -/
def replies (version : Nat → UInt8) : Nat → List Message → Bytes
  | _, [] => []
  | k, m :: ms => m.bytes (version k) ++ replies version (k + 1) ms

theorem replies_append (k : Nat) (ms ms' : List Message) :
    replies version k (ms ++ ms') = replies version k ms ++ replies version (k + ms.length) ms' := by
  induction ms generalizing k with
  | nil => rfl
  | cons m ms ih =>
    rw [List.cons_append, replies, replies, ih, List.append_assoc, List.length_cons,
      Nat.add_right_comm, Nat.add_assoc]

def Connection.after (version : Nat → UInt8) (conn : Connection) (r : List Message × Bytes) :
    Connection where
  connected := conn.connected && next r.2 ≠ .stop
  inputBuffer_ := r.2
  output := if conn.connected then conn.output ++ replies version conn.messages.length r.1
    else conn.output
  messages := conn.messages ++ r.1

theorem turn_waits (h : next conn.inputBuffer_ = .more) :
    onTLVmessageFrom version fuel conn = some conn := by
  cases fuel with
  | zero => rfl
  | succ fuel =>
    simp only [next] at h
    simp only [onTLVmessageFrom]
    split at h
    · rename_i hlen
      rw [if_pos hlen]
      split at h
      · cases h
      · rename_i hmagic
        rw [if_neg hmagic]
        split at h
        · exact if_pos ‹_›
        · cases h
    · exact if_neg ‹_›

theorem turn_stops (h : next conn.inputBuffer_ = .stop) :
    onTLVmessageFrom version (fuel + 1) conn = some conn.shutdown := by
  obtain ⟨hlen, hmagic⟩ := next_stop.mp h
  rw [onTLVmessageFrom, if_pos hlen]
  exact if_pos hmagic

theorem turn_message (h : next conn.inputBuffer_ = .message m rest) :
    onTLVmessageFrom version (fuel + 1) conn =
      onTLVmessageFrom version fuel (Connection.send
        { conn with inputBuffer_ := rest, messages := conn.messages ++ [m] }
        (m.bytes (version conn.messages.length))) := by
  obtain ⟨len, hle, hlen, hmagic, rfl, rfl⟩ := next_message h
  have hlt : len < 2 ^ 32 := by
    have hdecode := BigEndian.decode_lt (MessageHeader.ofBytes conn.inputBuffer_).length
    have hfour : (MessageHeader.ofBytes conn.inputBuffer_).length.length = 4 := by
      simp only [sizeofMessageHeader] at hle
      simp only [MessageHeader.ofBytes, List.length_take, List.length_drop]
      omega
    rw [hfour] at hdecode
    exact hlen.trans_lt hdecode
  rw [onTLVmessageFrom, if_pos ((Nat.le_add_right _ _).trans hle)]
  simp only [hmagic, ne_eq, not_true, if_false, ← hlen]
  rw [if_neg (by omega), send, serialise_eq _ _ ((List.length_take_le _ _).trans_lt hlt)]
  rfl

theorem send_inputBuffer : (conn.send data).inputBuffer_ = conn.inputBuffer_ := by
  unfold Connection.send
  split <;> rfl

theorem Connection.after_message (conn : Connection) (m : Message) (r : List Message × Bytes) :
    (Connection.send { conn with inputBuffer_ := rest, messages := conn.messages ++ [m] }
      (m.bytes (version conn.messages.length))).after version r =
        conn.after version (m :: r.1, r.2) := by
  simp only [Connection.send]
  split
  · rename_i hc
    simp [Connection.after, hc, replies]
  · rename_i hc
    simp [Connection.after, hc]

/-- The loop takes off what a decoder of messages does, and answers each. -/
theorem onTLVmessageFrom_eq (h : conn.inputBuffer_.length ≤ fuel) :
    onTLVmessageFrom version fuel conn =
      some (conn.after version (decoder.drain conn.inputBuffer_)) := by
  induction fuel generalizing conn with
  | zero =>
    have hnil := List.length_eq_zero_iff.mp (Nat.le_zero.mp h)
    have hmore : next conn.inputBuffer_ = .more := by rw [hnil]; rfl
    rw [turn_waits hmore, decoder.drain_waits (decoder.waits_of_more hmore)]
    simp [Connection.after, hmore, replies]
  | succ fuel ih =>
    cases hn : next conn.inputBuffer_ with
    | message m rest =>
      have hlt := decoder.shrinks hn
      have hbuf : (Connection.send { conn with inputBuffer_ := rest, messages := conn.messages ++ [m] }
          (m.bytes (version conn.messages.length))).inputBuffer_ = rest := send_inputBuffer
      rw [turn_message hn, ih (by rw [hbuf]; omega), hbuf, Connection.after_message, decoder.drain_message hn]
    | more =>
      rw [turn_waits hn, decoder.drain_waits (decoder.waits_of_more hn)]
      simp [Connection.after, hn, replies]
    | stop =>
      rw [turn_stops hn, decoder.drain_waits (decoder.waits_of_stop hn)]
      simp [Connection.after, Connection.shutdown, hn, replies]

/-- The connection after the bytes `s`, by what is decoded from all of them at once. -/
def received (version : Nat → UInt8) (s : Bytes) : Connection :=
  ({} : Connection).after version (decoder.drain s)

theorem handleRead_received (s data : Bytes) :
    handleRead version (received version s) data = some (received version (s ++ data)) := by
  rw [handleRead, onTLVmessage, onTLVmessageFrom_eq (Nat.le_refl _)]
  simp only [received, Connection.after, decoder.drain_append s data, Option.some.injEq,
    Connection.mk.injEq, Bool.true_and, if_true, List.nil_append, List.length_nil, true_and]
  rw [replies_append, Nat.zero_add]
  cases hstop : decide (next (decoder.drain s).2 = .stop) with
  | true =>
    have hstop : next (decoder.drain s).2 = .stop := of_decide_eq_true hstop
    have hleft := decoder.drain_waits (decoder.waits_of_stop (decoder.stop_append hstop data))
    have hstop' : next ((decoder.drain s).2 ++ data) = .stop := decoder.stop_append hstop data
    simp [hleft, hstop, hstop', replies]
  | false => simp [of_decide_eq_false hstop]

theorem run_eq (version : Nat → UInt8) (reads : List Bytes) :
    run version reads = some (received version reads.flatten) := by
  have h : ∀ s, reads.foldlM (handleRead version) (received version s) =
      some (received version (s ++ reads.flatten)) := by
    induction reads with
    | nil => simp
    | cons data reads ih =>
      intro s
      rw [List.foldlM_cons, handleRead_received, List.flatten_cons, ← List.append_assoc]
      exact ih _
  have hinit : received version [] = {} := by
    rw [received, decoder.drain_waits decoder.waits_nil]
    rfl
  exact (hinit ▸ h []).trans (by rw [List.nil_append])

def sendAll (conn : Connection) (ms : List (UInt8 × Message)) : Option Connection :=
  ms.foldlM (fun conn m => send m.1 conn m.2) conn

def WrongMagic (buf : Bytes) : Prop :=
  sizeofMessageHeader ≤ buf.length ∧ ntohl (MessageHeader.ofBytes buf).magic ≠ PROTOCOL_MAGIC

/-- How a stream is cut does not matter, what was sent is decoded, and nothing is decoded after
a wrong magic. -/
structure RoundTrips (version : Nat → UInt8) : Prop where
  defined : ∀ reads, (run version reads).isSome = true
  split : ∀ reads reads', reads.flatten = reads'.flatten → run version reads = run version reads'
  decoded : ∀ ms : List (UInt8 × Message), (∀ m ∈ ms, m.2.body.length < 2 ^ 32) →
    ∃ sender, sendAll {} ms = some sender ∧ ∀ reads, reads.flatten = sender.output →
      ∀ conn, run version reads = some conn →
        conn.messages = ms.map Prod.snd ∧ conn.inputBuffer_ = []
  stops : ∀ reads conn, run version reads = some conn → WrongMagic conn.inputBuffer_ →
    ∀ more conn', run version (reads ++ more) = some conn' → conn'.messages = conn.messages

theorem sendAll_eq (conn : Connection) (ms : List (UInt8 × Message)) (h : ∀ m ∈ ms, m.2.body.length < 2 ^ 32)
    (hc : conn.connected = true) : sendAll conn ms =
      some { conn with output := conn.output ++ ms.flatMap fun m => m.2.bytes m.1 } := by
  induction ms generalizing conn with
  | nil => simp [sendAll]
  | cons m ms ih =>
    have hsend : send m.1 conn m.2 = some { conn with output := conn.output ++ m.2.bytes m.1 } := by
      simp [send, serialise_eq m.1 m.2 (h m List.mem_cons_self), Connection.send, hc]
    have hrest := ih { conn with output := conn.output ++ m.2.bytes m.1 }
      (fun m' hm => h m' (List.mem_cons_of_mem m hm)) hc
    simp only [sendAll] at hrest ⊢
    rw [List.foldlM_cons, hsend, Option.bind_eq_bind, Option.bind_some, hrest, List.flatMap_cons,
      List.append_assoc]

theorem round_trips (version : Nat → UInt8) : RoundTrips version where
  defined reads := by rw [run_eq]; rfl
  split reads reads' h := by rw [run_eq, run_eq, h]
  decoded ms h := by
    have hsent := sendAll_eq {} ms h rfl
    rw [List.nil_append] at hsent
    refine ⟨_, hsent, fun reads hreads conn hrun => ?_⟩
    have hdrain : decoder.drain (ms.flatMap fun m => m.2.bytes m.1) = (ms.map Prod.snd, []) :=
      decoder.drain_encoded ms fun m hm => next_bytes (h m hm) m.1
    rw [run_eq, hreads] at hrun
    cases hrun
    simp [received, Connection.after, hdrain]
  stops reads conn hrun hwrong more conn' hrun' := by
    rw [run_eq] at hrun hrun'
    cases hrun
    cases hrun'
    have hstop := decoder.drain_stopped (next_stop.mpr hwrong) more.flatten
    simp [received, Connection.after, hstop]

end TLVCodec

end VortexNet
