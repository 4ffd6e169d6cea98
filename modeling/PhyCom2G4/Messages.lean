import PhyCom2G4.Lib.Codec
import PhyCom2G4.Stateless

/-!
# The messages as values

What the two sides of the link say to each other, apart from the bytes that
say it: `DevMsg` from device to phy and `PhyMsg` from phy to device. A
message that announces how many bytes or addresses follow it carries exactly
that many.
-/

namespace PhyCom2G4

open Bytes Memory Wire Program Program.Prog LibPhyCom

theorem bytes_parse_addresses (mem : Mem) (p : Addr) (n : Nat) :
    bytes (parse (load mem p (n * sizeof Address)) : List.Vector Address n) =
      load mem p (n * sizeof Address) :=
  bytes_parse (length_load mem p _)

theorem bytes_parse_packet (mem : Mem) (p : Addr) (n : Nat) :
    bytes (parse (load mem p n) : List.Vector Byte n) = load mem p n :=
  bytes_parse ((length_load mem p n).trans (Nat.mul_one n).symm)

variable [LibPhyCom]

-- ---------------------------------------------------------------------------
-- From device to phy
-- ---------------------------------------------------------------------------

inductive DevMsg
  | tx (s : Tx) (packet : List.Vector Byte s.packetSize.toNat)
  | txv2 (s : Txv2) (packet : List.Vector Byte s.packetSize.toNat)
  | tx2v1 (s : Tx2v1) (packet : List.Vector Byte s.packetSize.toNat)
  | rx (s : Rx)
  | rxv2 (s : Rxv2) (phyAddr : List.Vector Address s.nAddr.toNat)
  | rx2v1 (s : Rx2v1) (phyAddr : List.Vector Address s.nAddr.toNat)
  | rxcont
  | rxstop
  | rxv2cont (abort : Abort)
  | rssimeas (s : Rssi)
  | rssiv2meas (s : Rssiv2)
  | rerespAbortreeval (abort : Abort)
  | rerespImmrssi (s : Rssiv2)
  | ccaMeas (s : Cca)
  | ccav2Meas (s : Ccav2)
  | wait (s : PbWait)
  | disconnect
  | terminate

def DevMsg.header : DevMsg → PcHeader
  | .tx .. => msgTx
  | .txv2 .. => msgTxv2
  | .tx2v1 .. => msgTx2v1
  | .rx .. => msgRx
  | .rxv2 .. => msgRxv2
  | .rx2v1 .. => msgRx2v1
  | .rxcont => msgRxcont
  | .rxstop => msgRxstop
  | .rxv2cont .. => msgRxv2cont
  | .rssimeas .. => msgRssimeas
  | .rssiv2meas .. => msgRssiv2meas
  | .rerespAbortreeval .. => msgRerespAbortreeval
  | .rerespImmrssi .. => msgRerespImmrssi
  | .ccaMeas .. => msgCcaMeas
  | .ccav2Meas .. => msgCcav2Meas
  | .wait .. => msgWait
  | .disconnect => msgDisconnect
  | .terminate => msgTerminate

def DevMsg.body : DevMsg → List Byte
  | .tx s _ => bytes s
  | .txv2 s _ => bytes s
  | .tx2v1 s _ => bytes s
  | .rx s => bytes s
  | .rxv2 s _ => bytes s
  | .rx2v1 s _ => bytes s
  | .rxv2cont abort => bytes abort
  | .rssimeas s => bytes s
  | .rssiv2meas s => bytes s
  | .rerespAbortreeval abort => bytes abort
  | .rerespImmrssi s => bytes s
  | .ccaMeas s => bytes s
  | .ccav2Meas s => bytes s
  | .wait s => bytes s
  | .rxcont | .rxstop | .disconnect | .terminate => []

def DevMsg.tail : DevMsg → List Byte
  | .tx _ packet | .txv2 _ packet | .tx2v1 _ packet => bytes packet
  | .rxv2 _ phyAddr | .rx2v1 _ phyAddr => bytes phyAddr
  | _ => []

def DevMsg.write (m : DevMsg) : List Byte := bytes m.header ++ (m.body ++ m.tail)

/-- The writes that make up a message sent with `pb_send_msg`. -/
def DevMsg.events (m : DevMsg) : List Event := .msg m.header m.body :: payloadEvents m.tail

omit [LibPhyCom] in
@[simp] theorem written_payloadEvents (bs : List Byte) :
    (payloadEvents bs).flatMap Event.written = bs := by
  unfold payloadEvents
  split <;> simp [Event.written, *]

@[simp] theorem written_events (m : DevMsg) : m.events.flatMap Event.written = m.write := by
  simp [DevMsg.events, DevMsg.write, Event.written]

/-- The reference decoder: what the header says follows it. -/
def DevMsg.read (s : List Byte) : Option (DevMsg × List Byte) := do
  let (h, s) ← pick PcHeader s
  if h = msgTx then readMany (fun a : Tx => a.packetSize.toNat) .tx s
  else if h = msgTxv2 then readMany (fun a : Txv2 => a.packetSize.toNat) .txv2 s
  else if h = msgTx2v1 then readMany (fun a : Tx2v1 => a.packetSize.toNat) .tx2v1 s
  else if h = msgRx then readOne .rx s
  else if h = msgRxv2 then readMany (fun a : Rxv2 => a.nAddr.toNat) .rxv2 s
  else if h = msgRx2v1 then readMany (fun a : Rx2v1 => a.nAddr.toNat) .rx2v1 s
  else if h = msgRxcont then some (.rxcont, s)
  else if h = msgRxstop then some (.rxstop, s)
  else if h = msgRxv2cont then readOne .rxv2cont s
  else if h = msgRssimeas then readOne .rssimeas s
  else if h = msgRssiv2meas then readOne .rssiv2meas s
  else if h = msgRerespAbortreeval then readOne .rerespAbortreeval s
  else if h = msgRerespImmrssi then readOne .rerespImmrssi s
  else if h = msgCcaMeas then readOne .ccaMeas s
  else if h = msgCcav2Meas then readOne .ccav2Meas s
  else if h = msgWait then readOne .wait s
  else if h = msgDisconnect then some (.disconnect, s)
  else if h = msgTerminate then some (.terminate, s)
  else none

theorem base_headers_ne (hh : h ∈ headers2G4) :
    msgWait ≠ h ∧ msgDisconnect ≠ h ∧ msgTerminate ≠ h :=
  ⟨fun he => msgWait_new (by simp [he, hh]), fun he => msgDisconnect_new (he ▸ hh),
    fun he => msgTerminate_new (by simp [he, hh])⟩

theorem msgDisconnect_ne_msgWait : msgDisconnect ≠ msgWait :=
  fun he => msgWait_new (by simp [he])

theorem msgTerminate_ne_msgWait : msgTerminate ≠ msgWait :=
  fun he => msgWait_new (by simp [he])

theorem msgTerminate_ne_msgDisconnect : msgTerminate ≠ msgDisconnect :=
  fun he => msgTerminate_new (by simp [he])

theorem DevMsg.read_write (m : DevMsg) (rest : List Byte) :
    DevMsg.read (m.write ++ rest) = some (m, rest) := by
  have hbase : ∀ h ∈ headers2G4, msgWait ≠ h ∧ msgDisconnect ≠ h ∧ msgTerminate ≠ h :=
    fun _ => base_headers_ne
  simp only [headers2G4, List.forall_mem_cons] at hbase
  cases m <;>
    simp [DevMsg.read, DevMsg.write, DevMsg.header, DevMsg.body, DevMsg.tail, msgTx, msgTxv2,
      msgTx2v1, msgRx, msgRxv2, msgRx2v1, msgRxcont, msgRxstop, msgRxv2cont, msgRssimeas,
      msgRssiv2meas, msgRerespAbortreeval, msgRerespImmrssi, msgCcaMeas, msgCcav2Meas, hbase,
      msgDisconnect_ne_msgWait, msgTerminate_ne_msgWait, msgTerminate_ne_msgDisconnect]

theorem DevMsg.write_pos (m : DevMsg) : 0 < m.write.length := by
  have : sizeof PcHeader = 4 := rfl
  simp only [DevMsg.write, List.length_append, length_bytes]
  omega

def devCodec : Codec DevMsg where
  write := DevMsg.write
  read := DevMsg.read
  read_write := DevMsg.read_write
  write_pos := DevMsg.write_pos

-- ---------------------------------------------------------------------------
-- The requests that carry a tail
-- ---------------------------------------------------------------------------

section
variable {w : World}

theorem run_reqTxI [Packed α] (header : PcHeader) (s : α) (packetSize : UInt16) (buf : Addr) :
    (reqTxI header s packetSize buf).run w = (.ok (), w.sent
      (.msg header (bytes s) :: payloadEvents (load w.mem buf packetSize.toNat))) := by
  simp [reqTxI]

theorem run_devReqTxI (s : Tx) (buf : Addr) :
    (devReqTxI s buf).run w =
      (.ok (), w.sent (DevMsg.tx s (parse (load w.mem buf s.packetSize.toNat))).events) := by
  simp only [devReqTxI, run_reqTxI, DevMsg.events, DevMsg.body, DevMsg.tail, bytes_parse_packet]
  rfl

theorem run_devReqTxv2I (s : Txv2) (buf : Addr) :
    (devReqTxv2I s buf).run w =
      (.ok (), w.sent (DevMsg.txv2 s (parse (load w.mem buf s.packetSize.toNat))).events) := by
  simp only [devReqTxv2I, run_reqTxI, DevMsg.events, DevMsg.body, DevMsg.tail, bytes_parse_packet]
  rfl

theorem run_devReqTx2v1I (s : Tx2v1) (buf : Addr) :
    (devReqTx2v1I s buf).run w =
      (.ok (), w.sent (DevMsg.tx2v1 s (parse (load w.mem buf s.packetSize.toNat))).events) := by
  simp only [devReqTx2v1I, run_reqTxI, DevMsg.events, DevMsg.body, DevMsg.tail,
    bytes_parse_packet]
  rfl

theorem run_sendRxAddr [Packed α] (header : PcHeader) (rxS : α) (nAddr : UInt8) (phyAddr : Addr) :
    (sendRxAddr header rxS nAddr phyAddr).run w = (.ok (), w.sent (.msg header (bytes rxS) ::
      payloadEvents (load w.mem phyAddr (nAddr.toNat * sizeof Address)))) := by
  have h8 : sizeof Address = 8 := rfl
  simp only [sendRxAddr, run_bind, run_sendMsg, run_ite, run_writeDtpFrom, run_pure]
  split
  next h =>
    have hpos : 0 < nAddr.toNat := h
    have hne : load w.mem phyAddr (nAddr.toNat * sizeof Address) ≠ [] := fun he => by
      have := congrArg List.length he
      rw [length_load, h8] at this
      simp at this
      omega
    simp [payloadEvents, hne, Nat.mul_comm (sizeof Address)]
  next h =>
    have hpos : ¬ 0 < nAddr.toNat := h
    have hzero : nAddr.toNat = 0 := by omega
    simp [hzero, payloadEvents, load]

theorem run_sendRxAddr_rxv2 (s : Rxv2) (phyAddr : Addr) :
    (sendRxAddr msgRxv2 s s.nAddr phyAddr).run w = (.ok (), w.sent
      (DevMsg.rxv2 s (parse (load w.mem phyAddr (s.nAddr.toNat * sizeof Address)))).events) := by
  simp only [run_sendRxAddr, DevMsg.events, DevMsg.body, DevMsg.tail, bytes_parse_addresses]
  rfl

theorem run_sendRxAddr_rx2v1 (s : Rx2v1) (phyAddr : Addr) :
    (sendRxAddr msgRx2v1 s s.nAddr phyAddr).run w = (.ok (), w.sent
      (DevMsg.rx2v1 s (parse (load w.mem phyAddr (s.nAddr.toNat * sizeof Address)))).events) := by
  simp only [run_sendRxAddr, DevMsg.events, DevMsg.body, DevMsg.tail, bytes_parse_addresses]
  rfl

end

-- ---------------------------------------------------------------------------
-- From phy to device
-- ---------------------------------------------------------------------------

/-- `p2G4_rx_done_t` or `p2G4_rxv2_done_t` -/
def RxVersion.Done : RxVersion → Type
  | .v1 => RxDone
  | .v2 => Rxv2Done

instance packedDone : (v : RxVersion) → Packed v.Done
  | .v1 => inferInstanceAs (Packed RxDone)
  | .v2 => inferInstanceAs (Packed Rxv2Done)

inductive PhyMsg
  | txEnd (done : TxDone)
  | abortreeval
  | immrssiRrsiDone (done : RssiDone)
  | addressfound (v : RxVersion) (done : v.Done)
    (packet : List.Vector Byte (v.packetSize (bytes done)))
  | rxEnd (v : RxVersion) (done : v.Done)
  | rssiEnd (done : RssiDone)
  | ccaEnd (done : CcaDone)
  | waitEnd
  | disconnect

def PhyMsg.header : PhyMsg → PcHeader
  | .txEnd _ => msgTxEnd
  | .abortreeval => msgAbortreeval
  | .immrssiRrsiDone _ => msgImmrssiRrsiDone
  | .addressfound v _ _ => v.addressfound
  | .rxEnd v _ => v.rxEnd
  | .rssiEnd _ => msgRssiEnd
  | .ccaEnd _ => msgCcaEnd
  | .waitEnd => msgWaitEnd
  | .disconnect => msgDisconnect

def PhyMsg.done : PhyMsg → List Byte
  | .txEnd done => bytes done
  | .immrssiRrsiDone done | .rssiEnd done => bytes done
  | .addressfound _ done _ | .rxEnd _ done => bytes done
  | .ccaEnd done => bytes done
  | .abortreeval | .waitEnd | .disconnect => []

def PhyMsg.packet : PhyMsg → List Byte
  | .addressfound _ _ packet => packet.val
  | _ => []

def PhyMsg.write (m : PhyMsg) : List Byte := bytes m.header ++ (m.done ++ m.packet)

@[simp] theorem sizeof_done (v : RxVersion) : sizeof v.Done = v.sizeofDone := by
  cases v <;> rfl

end PhyCom2G4
