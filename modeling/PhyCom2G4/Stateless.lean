import PhyCom2G4.Priv

/-!
# bs_pc_2G4_stateless.c

The family with callbacks: one blocking call is a whole transaction. A
request structure is taken by value and given back as the call leaves it.
-/

namespace PhyCom2G4

open Bytes Memory Program Program.Prog LibPhyCom

variable [LibPhyCom]

def devInitcomSC (devNbr : UInt32) (s p : String) (abortFptr : Option DevAbortReevalF) :
    M Int32 := do
  modify fun w => { w with abortF := abortFptr }
  act fun w =>
    let r := pbDevInitCom devNbr s p w.link
    (r.1, { w with link := r.2 })

def devTerminateSC : M Unit := devTerminate

def devDisconnectSC : M Unit := devDisconnect

/-- `abort_f(abort_s)`, or what stands for it when there is no callback. -/
def askAbortF (abortS : Abort) : M (Int32 × Abort) := do
  let w ← get
  match w.abortF with
  | some f => act fun w =>
    let r := f w.calls abortS
    (r, { w with calls := w.calls ++ [.abortReeval abortS r.1] })
  | none => pure (0, { abortS with recheckTime := timeNever })

def devDoAbortReevalS (abortS : Abort) : M (Int32 × Abort) := do
  let (ret, abortS) ← askAbortF abortS
  if ret ≠ 0 then do
    devDisconnect
    pure (-1, abortS)
  else do
    sendMsg msgRerespAbortreeval abortS
    pure (0, abortS)

def getRespLoop : Nat → Abort → M (PcHeader × Abort)
  | 0, _ => traceError "out of fuel"
  | fuel + 1, abort => do
    let (ret, header) ← devReadHeader
    if ret = -1 then pure (-1, abort)
    else if header = msgAbortreeval then do
      let (ret, abort) ← devDoAbortReevalS abort
      if ret = -1 then pure (-1, abort) else getRespLoop fuel abort
    else pure (header, abort)

/-- A turn of the loop takes a header off the stream, so that the stream's
length is fuel enough. -/
def getRespWhileHandlingAbortreevalS (abort : Abort) : M (PcHeader × Abort) := do
  let w ← get
  getRespLoop (w.link.ptd.length + 1) abort

-- ---------------------------------------------------------------------------
-- Transmissions and CCA
-- ---------------------------------------------------------------------------

def reqSCB (request : M Unit) (handle : PcHeader → M Int32) (abort : Abort) : M (Int32 × Abort) :=
  checkConnected (-1, abort) do
    request
    let (header, abort) ← getRespWhileHandlingAbortreevalS abort
    let ret ← handle header
    pure (ret, abort)

def devReqTxSCB (txS : Tx) (packet txDoneS : Addr) : M (Int32 × Tx) := do
  let (ret, abort) ← reqSCB (devReqTxI txS packet) (devHandleTxRespI · txDoneS) txS.abort
  pure (ret, { txS with abort })

def devReqTxv2SCB (txS : Txv2) (packet txDoneS : Addr) : M (Int32 × Txv2) := do
  let (ret, abort) ← reqSCB (devReqTxv2I txS packet) (devHandleTxRespI · txDoneS) txS.abort
  pure (ret, { txS with abort })

def devReqTx2v1SCB (txS : Tx2v1) (packet txDoneS : Addr) : M (Int32 × Tx2v1) := do
  let (ret, abort) ← reqSCB (devReqTx2v1I txS packet) (devHandleTxRespI · txDoneS) txS.abort
  pure (ret, { txS with abort })

def devReqCcaSCB (ccaS : Cca) (ccaDoneS : Addr) : M (Int32 × Cca) := do
  let (ret, abort) ← reqSCB (sendMsg msgCcaMeas ccaS) (devHandleCcaRespI · ccaDoneS) ccaS.abort
  pure (ret, { ccaS with abort })

def devReqCcav2SCB (ccaS : Ccav2) (ccaDoneS : Addr) : M (Int32 × Ccav2) := do
  let (ret, abort) ← reqSCB (sendMsg msgCcav2Meas ccaS) (devHandleCcaRespI · ccaDoneS) ccaS.abort
  pure (ret, { ccaS with abort })

def devReqTxSC (txS : Tx) (packet : Addr) : M Int32 :=
  checkConnected (-1) do
    devReqTxI txS packet
    pure 0

def devReqTxv2SC (txS : Txv2) (packet : Addr) : M Int32 :=
  checkConnected (-1) do
    devReqTxv2I txS packet
    pure 0

def devPickTxrespSCB (txDoneS : Addr) : M Int32 := checkConnected (-1) (devGetTxRespI txDoneS)

-- ---------------------------------------------------------------------------
-- Receptions
-- ---------------------------------------------------------------------------

/-- The verdict on a packet: that of `dev_rxeval_f` or, without one, `true`. -/
def evalRx (v : RxVersion) (rxDoneS rxBuf : Addr) : Option DeviceEvalRxF → M Int32
  | some f => act fun w =>
    let done := load w.mem rxDoneS v.sizeofDone
    let packet := load w.mem (w.ptr rxBuf) (v.packetSize done)
    let ret := f w.calls done packet
    (ret, { w with calls := w.calls ++ [.rxEval done packet ret] })
  | none => pure 1

def endRx (v : RxVersion) (rHeader : PcHeader) (rxDoneS : Addr) : M Int32 :=
  if rHeader = msgDisconnect then do
    devCleanUp
    pure (-1)
  else if rHeader = v.rxEnd then do
    let ret ← devRead rxDoneS v.sizeofDone
    if ret = -1 then pure (-1) else pure rHeader.toInt32
  else invalidResp rHeader

def reqRxSCB (v : RxVersion) (request : M Unit) (abort : Abort) (rxDoneS rxBuf : Addr)
    (bufSize : Nat) (devRxevalF : Option DeviceEvalRxF) : M (Int32 × Abort) :=
  checkConnected (-1, abort) do
    request
    let (rHeader, abort) ← getRespWhileHandlingAbortreevalS abort
    if rHeader = v.addressfound then do
      let ret ← devRead rxDoneS v.sizeofDone
      if ret = -1 then pure (-1, abort)
      else do
        let w ← get
        let ret ← rxPickPacket (v.packetSize (load w.mem rxDoneS v.sizeofDone)) rxBuf bufSize
        if ret ≠ 0 then pure (ret, abort)
        else do
          let acceptPacket ← evalRx v rxDoneS rxBuf devRxevalF
          writeDtp (bytes (if acceptPacket = 1 then msgRxcont else msgRxstop))
          if acceptPacket ≠ 1 then pure (rHeader.toInt32, abort)
          else do
            let (rHeader, abort) ← getRespWhileHandlingAbortreevalS abort
            let ret ← endRx v rHeader rxDoneS
            pure (ret, abort)
    else do
      let ret ← endRx v rHeader rxDoneS
      pure (ret, abort)

def sendRxAddr [Packed α] (header : PcHeader) (rxS : α) (nAddr : UInt8) (phyAddr : Addr) :
    M Unit := do
  sendMsg header rxS
  if 0 < nAddr then writeDtpFrom phyAddr (sizeof Address * nAddr.toNat) else pure ()

def devReqRxSCB (rxS : Rx) (rxDoneS rxBuf : Addr) (bufSize : Nat)
    (devRxevalF : Option DeviceEvalRxF) : M (Int32 × Rx) := do
  let (ret, abort) ←
    reqRxSCB .v1 (sendMsg msgRx rxS) rxS.abort rxDoneS rxBuf bufSize devRxevalF
  pure (ret, { rxS with abort })

def devReqRxv2SCB (rxS : Rxv2) (phyAddr rxDoneS rxBuf : Addr) (bufSize : Nat)
    (devRxevalF : Option DeviceEvalRxF) : M (Int32 × Rxv2) := do
  let (ret, abort) ← reqRxSCB .v2 (sendRxAddr msgRxv2 rxS rxS.nAddr phyAddr) rxS.abort rxDoneS
    rxBuf bufSize devRxevalF
  pure (ret, { rxS with abort })

def devReqRx2v1SCB (rxS : Rx2v1) (phyAddr rxDoneS rxBuf : Addr) (bufSize : Nat)
    (devRxevalF : Option DeviceEvalRxF) : M (Int32 × Rx2v1) := do
  let (ret, abort) ← reqRxSCB .v2 (sendRxAddr msgRx2v1 rxS rxS.nAddr phyAddr) rxS.abort rxDoneS
    rxBuf bufSize devRxevalF
  pure (ret, { rxS with abort })

-- ---------------------------------------------------------------------------
-- RSSI and waits
-- ---------------------------------------------------------------------------

def devReqRSSISCB (rssiS : Rssi) (rssiDoneS : Addr) : M Int32 :=
  checkConnected (-1) do
    sendMsg msgRssimeas rssiS
    devGetRssiRespI rssiDoneS

def devReqRSSIv2SCB (rssiS : Rssiv2) (rssiDoneS : Addr) : M Int32 :=
  checkConnected (-1) do
    sendMsg msgRssiv2meas rssiS
    devGetRssiRespI rssiDoneS

def devReqWaitSCB (waitS : PbWait) : M Int32 := attempt fun w =>
  let r := pbDevRequestWaitBlock waitS w.link
  (r.1, { w with link := r.2 })

def devReqWaitSC (waitS : PbWait) : M Int32 := act fun w =>
  let r := pbDevRequestWaitNonblock waitS w.link
  (r.1, { w with link := r.2 })

def devPickWaitRespSCB : M Int32 := attempt fun w =>
  let r := pbDevPickWaitResp w.link
  (r.1, { w with link := r.2 })

end PhyCom2G4
