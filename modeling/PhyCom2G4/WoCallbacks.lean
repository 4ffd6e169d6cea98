import PhyCom2G4.Stateless

/-!
# bs_pc_2G4_stateless_wo_callbacks.c

The family without callbacks: the device makes each step of a transaction
with a call of its own, and the pointers of the request are kept in its state
until the answer that fills what they point to. `ongoing` is what the device
is expected to do next.
-/

namespace PhyCom2G4

open Bytes Memory Program Program.Prog LibPhyCom

variable [LibPhyCom]

def devInitComSNc (d : UInt32) (s p : String) : M Int32 := act fun w =>
  let r := pbDevInitCom d s p w.link
  (r.1, { w with link := r.2 })

def devTerminateSNc : M Unit := devTerminate

def devDisconnectSNc : M Unit := devDisconnect

/-- The check of `ongoing` that stops a device which is not where it thinks. -/
def guardOngoing (o : OngoingTransaction) (text : String) : M Unit := do
  let w ← get
  if w.nc.ongoing ≠ o then traceError text else pure ()

-- ---------------------------------------------------------------------------
-- Transmissions and CCA
-- ---------------------------------------------------------------------------

def getRespNc (reeval : OngoingTransaction) (doneS : DevStateNc → Addr)
    (handle : PcHeader → Addr → M Int32) : M Int32 := do
  let (ret, header) ← devReadHeader
  if ret = -1 then pure (-1)
  else if header = msgAbortreeval then do
    setOngoing reeval
    pure header.toInt32
  else do
    setOngoing .nothing
    let w ← get
    let ret ← handle header (doneS w.nc)
    if ret = -1 then pure (-1) else pure header.toInt32

def devGetTxRespNc : M Int32 := getRespNc .txAbortReeval DevStateNc.txDoneS devHandleTxRespI

def devGetCcaRespNc : M Int32 := getRespNc .ccaAbortReeval DevStateNc.ccaDoneS devHandleCcaRespI

def reqTxSNcB (request : M Unit) (txDoneS : Addr) : M Int32 :=
  checkConnected (-1) do
    modifyNc fun s => { s with txDoneS }
    guardOngoing .nothing "Tried to request a new tx while some other transaction was ongoing\n"
    request
    devGetTxRespNc

def devReqTxSNcB (txS : Tx) (packet txDoneS : Addr) : M Int32 :=
  reqTxSNcB (devReqTxI txS packet) txDoneS

def devReqTxv2SNcB (txS : Txv2) (packet txDoneS : Addr) : M Int32 :=
  reqTxSNcB (devReqTxv2I txS packet) txDoneS

def devReqTx2v1SNcB (txS : Tx2v1) (packet txDoneS : Addr) : M Int32 :=
  reqTxSNcB (devReqTx2v1I txS packet) txDoneS

def devProvideNewTxAbortSNcB (abort : Abort) : M Int32 :=
  checkConnected (-1) do
    guardOngoing .txAbortReeval "Tried to send a new Tx Abort substruct but we are not in a Tx transaction abort reevaluation!\n"
    sendMsg msgRerespAbortreeval abort
    devGetTxRespNc

def reqCcaSNcB (request : M Unit) (ccaDoneS : Addr) : M Int32 :=
  checkConnected (-1) do
    modifyNc fun s => { s with ccaDoneS }
    guardOngoing .nothing "Tried to request a new CCA while some other transaction was ongoing\n"
    request
    devGetCcaRespNc

def devReqCcaSNcB (ccaS : Cca) (ccaDoneS : Addr) : M Int32 :=
  reqCcaSNcB (sendMsg msgCcaMeas ccaS) ccaDoneS

def devReqCcav2SNcB (ccaS : Ccav2) (ccaDoneS : Addr) : M Int32 :=
  reqCcaSNcB (sendMsg msgCcav2Meas ccaS) ccaDoneS

def devProvideNewCcaAbortSNcB (abort : Abort) : M Int32 :=
  checkConnected (-1) do
    guardOngoing .ccaAbortReeval "Tried to send a new CCA Abort substruct but we are not in a CCA transaction abort reevaluation!\n"
    sendMsg msgRerespAbortreeval abort
    devGetCcaRespNc

def devReqWaitSNcB (waitS : PbWait) : M Int32 := attempt fun w =>
  let r := pbDevRequestWaitBlock waitS w.link
  (r.1, { w with link := r.2 })

-- ---------------------------------------------------------------------------
-- Receptions
-- ---------------------------------------------------------------------------

def RxVersion.doneS : RxVersion → DevStateNc → Addr
  | .v1, s => s.rxDoneS
  | .v2, s => s.rxv2DoneS

/-- Both versions test the read of the last done structure against 1, where
every other read is tested against -1. -/
def handleRxResponses (v : RxVersion) (header : PcHeader) : M Int32 := do
  let w ← get
  let rxDoneS := v.doneS w.nc
  if header = msgAbortreeval then do
    setOngoing .rxAbortReeval
    pure header.toInt32
  else if header = v.addressfound ∧ w.nc.weGotAddress = false then do
    let ret ← devRead rxDoneS v.sizeofDone
    if ret = -1 then pure (-1)
    else do
      let w ← get
      let ret ←
        rxPickPacket (v.packetSize (load w.mem rxDoneS v.sizeofDone)) w.nc.rxbuf w.nc.bufsize
      if ret = -1 then pure ret
      else do
        modifyNc fun s => { s with weGotAddress := true }
        setOngoing .rxHeaderEval
        pure header.toInt32
  else if header = msgDisconnect then do
    setOngoing .nothing
    devCleanUp
    pure (-1)
  else if header = v.rxEnd then do
    setOngoing .nothing
    let ret ← devRead rxDoneS v.sizeofDone
    if ret = 1 then pure (-1) else pure header.toInt32
  else invalidResp header

def handleRxResponsesSNc (header : PcHeader) : M Int32 := handleRxResponses .v1 header

def handleRxv2ResponsesSNc (header : PcHeader) : M Int32 := handleRxResponses .v2 header

def pickRxResponse (handle : PcHeader → M Int32) : M Int32 := do
  let (ret, header) ← devReadHeader
  if ret = -1 then pure (-1) else handle header

def devRxContAfterAddrSNcB (devAccepts : Bool) : M Int32 :=
  checkConnected (-1) do
    guardOngoing .rxHeaderEval "Tried to continue from an Rx Header eval, but we are not doing that now..\n"
    writeDtp (bytes (if devAccepts then msgRxcont else msgRxstop))
    if devAccepts = false then do
      setOngoing .nothing
      pure 0
    else pickRxResponse handleRxResponsesSNc

def devRxv2ContAfterAddrSNcB (devAccepts : Bool) (abort : Abort) : M Int32 :=
  checkConnected (-1) do
    guardOngoing .rxHeaderEval "Tried to continue from an Rx Header eval, but we are not doing that now..\n"
    if devAccepts then do
      writeDtp (bytes msgRxv2cont)
      writeDtp (bytes abort)
    else writeDtp (bytes msgRxstop)
    if devAccepts = false then do
      setOngoing .nothing
      pure 0
    else pickRxResponse handleRxv2ResponsesSNc

def provideNewRxAbortSNcB (handle : PcHeader → M Int32) (abort : Abort) : M Int32 :=
  checkConnected (-1) do
    guardOngoing .rxAbortReeval "Tried to send a new Rx Abort substruct but we are not in a Rx transaction abort reevaluation!\n"
    sendMsg msgRerespAbortreeval abort
    pickRxResponse handle

def devProvideNewRxAbortSNcB (abort : Abort) : M Int32 :=
  provideNewRxAbortSNcB handleRxResponsesSNc abort

def devProvideNewRxv2AbortSNcB (abort : Abort) : M Int32 :=
  provideNewRxAbortSNcB handleRxv2ResponsesSNc abort

def devReqImmRSSISNcB (rssiS : Rssiv2) (rssiDoneS : Addr) : M Int32 :=
  checkConnected (-1) do
    guardOngoing .rxAbortReeval "Tried to send a new Rx RSSI immediate request but we are not in a Rx transaction abort reevaluation!\n"
    sendMsg msgRerespImmrssi rssiS
    devGetRssiRespI rssiDoneS

/-- No check of `ongoing` here, nor in the next one. -/
def devReqRSSISNcB (rssiS : Rssi) (rssiDoneS : Addr) : M Int32 :=
  checkConnected (-1) do
    sendMsg msgRssimeas rssiS
    devGetRssiRespI rssiDoneS

def devReqRSSIv2SNcB (rssiS : Rssiv2) (rssiDoneS : Addr) : M Int32 :=
  checkConnected (-1) do
    sendMsg msgRssiv2meas rssiS
    devGetRssiRespI rssiDoneS

def reqRxSNcB (request : M Unit) (register : DevStateNc → DevStateNc) (rxBuf : Addr) (bufSize : Nat)
    (handle : PcHeader → M Int32) : M Int32 :=
  checkConnected (-1) do
    guardOngoing .nothing "Tried to request a new Rx while another transaction was ongoing\n"
    request
    modifyNc fun s => { register s with bufsize := bufSize, rxbuf := rxBuf, weGotAddress := false }
    pickRxResponse handle

def devReqRxSNcB (rxS : Rx) (rxDoneS rxBuf : Addr) (bufSize : Nat) : M Int32 :=
  reqRxSNcB (sendMsg msgRx rxS) (fun s => { s with rxDoneS }) rxBuf bufSize handleRxResponsesSNc

def devReqRxv2SNcB (rxS : Rxv2) (phyAddr rxDoneS rxBuf : Addr) (bufSize : Nat) : M Int32 :=
  reqRxSNcB (sendRxAddr msgRxv2 rxS rxS.nAddr phyAddr) (fun s => { s with rxv2DoneS := rxDoneS })
    rxBuf bufSize handleRxv2ResponsesSNc

def devReqRx2v1SNcB (rxS : Rx2v1) (phyAddr rxDoneS rxBuf : Addr) (bufSize : Nat) : M Int32 :=
  reqRxSNcB (sendRxAddr msgRx2v1 rxS rxS.nAddr phyAddr) (fun s => { s with rxv2DoneS := rxDoneS })
    rxBuf bufSize handleRxv2ResponsesSNc

-- ---------------------------------------------------------------------------
-- bs_pc_2G4.c: the same with the state kept in the library
-- ---------------------------------------------------------------------------

/-- `p2G4_dev_initcom_nc`, the one call with memory that does more than its
namesake without. -/
def devInitcomNc (d : UInt32) (s p : String) : M Int32 := do
  setOngoing .nothing
  devInitComSNc d s p

end PhyCom2G4
