import PhyCom2G4.World

/-!
# bs_pc_2G4_priv.c

The functions both families share.
-/

namespace PhyCom2G4

open Bytes Memory Program Program.Prog LibPhyCom

variable [LibPhyCom]

def reqTxI [Packed α] (header : PcHeader) (s : α) (packetSize : UInt16) (buf : Addr) : M Unit := do
  sendMsg header s
  sendPayload buf packetSize.toNat

def devReqTxI (s : Tx) (buf : Addr) : M Unit := reqTxI msgTx s s.packetSize buf

def devReqTxv2I (s : Txv2) (buf : Addr) : M Unit := reqTxI msgTxv2 s s.packetSize buf

def devReqTx2v1I (s : Tx2v1) (buf : Addr) : M Unit := reqTxI msgTx2v1 s s.packetSize buf

def handleRespI (endMsg : PcHeader) (size : Nat) (header : PcHeader) (doneS : Addr) : M Int32 :=
  if header = endMsg then do
    let ret ← devRead doneS size
    if ret = -1 then pure (-1) else pure 0
  else if header = msgDisconnect then do
    devCleanUp
    pure (-1)
  else invalidResp header

def devHandleTxRespI (header : PcHeader) (txDoneS : Addr) : M Int32 :=
  handleRespI msgTxEnd (sizeof TxDone) header txDoneS

def devGetTxRespI (txDoneS : Addr) : M Int32 := do
  let (ret, header) ← devReadHeader
  if ret = -1 then pure (-1) else devHandleTxRespI header txDoneS

def devHandleCcaRespI (header : PcHeader) (ccaDoneS : Addr) : M Int32 :=
  handleRespI msgCcaEnd (sizeof CcaDone) header ccaDoneS

def devGetRssiRespI (rssiDoneS : Addr) : M Int32 := do
  let (ret, header) ← devReadHeader
  if ret = -1 then pure (-1)
  else if header = msgDisconnect then do
    devCleanUp
    pure (-1)
  else if header = msgRssiEnd ∨ header = msgImmrssiRrsiDone then do
    let ret ← devRead rssiDoneS (sizeof RssiDone)
    if ret = -1 then pure (-1) else pure 0
  else invalidResp header

def rxPickPacket (rxSize : Nat) (rxBuf : Addr) (bufSize : Nat) : M Int32 :=
  if 0 < rxSize then do
    let bufOk ←
      if rxSize ≤ bufSize then pure true
      else if bufSize = 0 then do
        mallocTo rxBuf rxSize
        pure true
      else pure false
    if bufOk = false then do
      devDisconnect
      pure (-1)
    else do
      let w ← get
      let ret ← devRead (w.ptr rxBuf) rxSize
      if ret = -1 then pure (-1) else pure 0
  else pure 0

-- ---------------------------------------------------------------------------
-- The two versions of a reception
-- ---------------------------------------------------------------------------

/-- The messages of a reception come in two versions; v2.1 receives those of v2. -/
inductive RxVersion
  | v1
  | v2
  deriving DecidableEq, Repr

def RxVersion.addressfound : RxVersion → PcHeader
  | .v1 => msgRxAddressfound
  | .v2 => msgRxv2Addressfound

def RxVersion.rxEnd : RxVersion → PcHeader
  | .v1 => msgRxEnd
  | .v2 => msgRxv2End

def RxVersion.sizeofDone : RxVersion → Nat
  | .v1 => sizeof RxDone
  | .v2 => sizeof Rxv2Done

def RxVersion.packetSize : RxVersion → List Byte → Nat
  | .v1, bs => (parse bs : RxDone).packetSize.toNat
  | .v2, bs => (parse bs : Rxv2Done).packetSize.toNat

end PhyCom2G4
