import PhyCom2G4.LibPhyCom

/-!
# The messages of the 2G4 phy

The packed structures and the message headers of `bs_pc_2G4_types.h`. A
structure's `Packed` instance lists its fields in the order of the source,
which is their order on the wire.
-/

namespace PhyCom2G4

open Bytes

variable [LibPhyCom]

-- ---------------------------------------------------------------------------
-- Structures common to all versions
-- ---------------------------------------------------------------------------

abbrev Freq := Int16
abbrev Freq2 := UInt32
abbrev Power := Int16
abbrev RssiPower := Int32
abbrev Modulation := UInt16
abbrev Address := UInt64

structure Abort where
  abortTime : BsTime
  recheckTime : BsTime

instance : Packed Abort :=
  .map (fun s => (s.abortTime, s.recheckTime)) (fun p => ⟨p.1, p.2⟩)
    (fun _ => rfl) (fun _ => rfl)

structure Radioparams where
  modulation : Modulation
  centerFreq : Freq
  deriving DecidableEq, Repr

instance : Packed Radioparams :=
  .map (fun s => (s.modulation, s.centerFreq)) (fun p => ⟨p.1, p.2⟩)
    (fun _ => rfl) (fun _ => rfl)

structure Radioparamsv2 where
  centerFreq : Freq2
  modulation : Modulation
  deriving DecidableEq, Repr

instance : Packed Radioparamsv2 :=
  .map (fun s => (s.centerFreq, s.modulation)) (fun p => ⟨p.1, p.2⟩)
    (fun _ => rfl) (fun _ => rfl)

structure Rssi where
  measTime : BsTime
  radioParams : Radioparams
  antennaGain : Power

instance : Packed Rssi :=
  .map (fun s => (s.measTime, s.radioParams, s.antennaGain)) (fun p => ⟨p.1, p.2.1, p.2.2⟩)
    (fun _ => rfl) (fun _ => rfl)

structure Rssiv2 where
  measTime : BsTime
  radioParams : Radioparamsv2
  antennaGain : Power

instance : Packed Rssiv2 :=
  .map (fun s => (s.measTime, s.radioParams, s.antennaGain)) (fun p => ⟨p.1, p.2.1, p.2.2⟩)
    (fun _ => rfl) (fun _ => rfl)

structure RssiDone where
  rssi : RssiPower
  deriving DecidableEq, Repr

instance : Packed RssiDone := .map (fun s => s.rssi) (fun p => ⟨p⟩) (fun _ => rfl) (fun _ => rfl)

-- ---------------------------------------------------------------------------
-- v1
-- ---------------------------------------------------------------------------

structure Rx where
  startTime : BsTime
  scanDuration : UInt32
  phyAddress : UInt32
  radioParams : Radioparams
  antennaGain : Power
  syncThreshold : UInt16
  headerThreshold : UInt16
  preamAndAddrDuration : UInt16
  headerDuration : UInt16
  bps : UInt32
  abort : Abort

instance : Packed Rx :=
  .map (fun s => (s.startTime, s.scanDuration, s.phyAddress, s.radioParams, s.antennaGain,
      s.syncThreshold, s.headerThreshold, s.preamAndAddrDuration, s.headerDuration, s.bps, s.abort))
    (fun (a, b, c, d, e, f, g, h, i, j, k) => ⟨a, b, c, d, e, f, g, h, i, j, k⟩)
    (fun _ => rfl) (fun _ => rfl)

structure Tx where
  startTime : BsTime
  endTime : BsTime
  abort : Abort
  phyAddress : UInt32
  radioParams : Radioparams
  powerLevel : Power
  packetSize : UInt16

instance : Packed Tx :=
  .map (fun s => (s.startTime, s.endTime, s.abort, s.phyAddress, s.radioParams, s.powerLevel,
      s.packetSize))
    (fun (a, b, c, d, e, f, g) => ⟨a, b, c, d, e, f, g⟩) (fun _ => rfl) (fun _ => rfl)

structure RxDone where
  status : UInt16
  packetSize : UInt16
  rxTimeStamp : BsTime
  endTime : BsTime
  rssi : RssiDone

instance : Packed RxDone :=
  .map (fun s => (s.status, s.packetSize, s.rxTimeStamp, s.endTime, s.rssi))
    (fun (a, b, c, d, e) => ⟨a, b, c, d, e⟩) (fun _ => rfl) (fun _ => rfl)

structure TxDone where
  endTime : BsTime

instance : Packed TxDone :=
  .map (fun s => s.endTime) (fun p => ⟨p⟩) (fun _ => rfl) (fun _ => rfl)

-- ---------------------------------------------------------------------------
-- v2
-- ---------------------------------------------------------------------------

structure Txv2 where
  startTxTime : BsTime
  endTxTime : BsTime
  startPacketTime : BsTime
  endPacketTime : BsTime
  phyAddress : Address
  abort : Abort
  radioParams : Radioparams
  powerLevel : Power
  codingRate : UInt16
  packetSize : UInt16

instance : Packed Txv2 :=
  .map (fun s => (s.startTxTime, s.endTxTime, s.startPacketTime, s.endPacketTime, s.phyAddress,
      s.abort, s.radioParams, s.powerLevel, s.codingRate, s.packetSize))
    (fun (a, b, c, d, e, f, g, h, i, j) => ⟨a, b, c, d, e, f, g, h, i, j⟩)
    (fun _ => rfl) (fun _ => rfl)

structure Rxv2 where
  startTime : BsTime
  abort : Abort
  scanDuration : UInt32
  forcedPacketDuration : UInt32
  errorCalcRate : UInt32
  radioParams : Radioparams
  antennaGain : Power
  codingRate : UInt16
  preamAndAddrDuration : UInt16
  headerDuration : UInt16
  acceptablePreTruncation : UInt16
  syncThreshold : UInt16
  headerThreshold : UInt16
  prelockedTx : UInt8
  respType : UInt8
  nAddr : UInt8

instance : Packed Rxv2 :=
  .map (fun s => (s.startTime, s.abort, s.scanDuration, s.forcedPacketDuration, s.errorCalcRate,
      s.radioParams, s.antennaGain, s.codingRate, s.preamAndAddrDuration, s.headerDuration,
      s.acceptablePreTruncation, s.syncThreshold, s.headerThreshold, s.prelockedTx, s.respType,
      s.nAddr))
    (fun (a, b, c, d, e, f, g, h, i, j, k, l, m, n, o, p) =>
      ⟨a, b, c, d, e, f, g, h, i, j, k, l, m, n, o, p⟩)
    (fun _ => rfl) (fun _ => rfl)

structure Cca where
  startTime : BsTime
  abort : Abort
  scanDuration : UInt32
  scanPeriod : UInt32
  radioParams : Radioparams
  modThreshold : RssiPower
  rssiThreshold : RssiPower
  antennaGain : Power
  stopWhenFound : UInt8

instance : Packed Cca :=
  .map (fun s => (s.startTime, s.abort, s.scanDuration, s.scanPeriod, s.radioParams,
      s.modThreshold, s.rssiThreshold, s.antennaGain, s.stopWhenFound))
    (fun (a, b, c, d, e, f, g, h, i) => ⟨a, b, c, d, e, f, g, h, i⟩)
    (fun _ => rfl) (fun _ => rfl)

-- ---------------------------------------------------------------------------
-- v2.1
-- ---------------------------------------------------------------------------

structure Tx2v1 where
  startTxTime : BsTime
  endTxTime : BsTime
  startPacketTime : BsTime
  endPacketTime : BsTime
  phyAddress : Address
  abort : Abort
  radioParams : Radioparamsv2
  powerLevel : Power
  codingRate : UInt16
  packetSize : UInt16

instance : Packed Tx2v1 :=
  .map (fun s => (s.startTxTime, s.endTxTime, s.startPacketTime, s.endPacketTime, s.phyAddress,
      s.abort, s.radioParams, s.powerLevel, s.codingRate, s.packetSize))
    (fun (a, b, c, d, e, f, g, h, i, j) => ⟨a, b, c, d, e, f, g, h, i, j⟩)
    (fun _ => rfl) (fun _ => rfl)

structure Rx2v1 where
  startTime : BsTime
  abort : Abort
  scanDuration : UInt32
  forcedPacketDuration : UInt32
  errorCalcRate : UInt32
  radioParams : Radioparamsv2
  antennaGain : Power
  codingRate : UInt16
  preamAndAddrDuration : UInt16
  headerDuration : UInt16
  acceptablePreTruncation : UInt16
  syncThreshold : UInt16
  headerThreshold : UInt16
  prelockedTx : UInt8
  respType : UInt8
  nAddr : UInt8

instance : Packed Rx2v1 :=
  .map (fun s => (s.startTime, s.abort, s.scanDuration, s.forcedPacketDuration, s.errorCalcRate,
      s.radioParams, s.antennaGain, s.codingRate, s.preamAndAddrDuration, s.headerDuration,
      s.acceptablePreTruncation, s.syncThreshold, s.headerThreshold, s.prelockedTx, s.respType,
      s.nAddr))
    (fun (a, b, c, d, e, f, g, h, i, j, k, l, m, n, o, p) =>
      ⟨a, b, c, d, e, f, g, h, i, j, k, l, m, n, o, p⟩)
    (fun _ => rfl) (fun _ => rfl)

structure Rxv2Done where
  rxTimeStamp : BsTime
  endTime : BsTime
  phyAddress : Address
  codingRate : UInt16
  rssi : RssiDone
  status : UInt16
  packetSize : UInt16

instance : Packed Rxv2Done :=
  .map (fun s => (s.rxTimeStamp, s.endTime, s.phyAddress, s.codingRate, s.rssi, s.status,
      s.packetSize))
    (fun (a, b, c, d, e, f, g) => ⟨a, b, c, d, e, f, g⟩) (fun _ => rfl) (fun _ => rfl)

structure Ccav2 where
  startTime : BsTime
  abort : Abort
  scanDuration : UInt32
  scanPeriod : UInt32
  radioParams : Radioparamsv2
  modThreshold : RssiPower
  rssiThreshold : RssiPower
  antennaGain : Power
  stopWhenFound : UInt8

instance : Packed Ccav2 :=
  .map (fun s => (s.startTime, s.abort, s.scanDuration, s.scanPeriod, s.radioParams,
      s.modThreshold, s.rssiThreshold, s.antennaGain, s.stopWhenFound))
    (fun (a, b, c, d, e, f, g, h, i) => ⟨a, b, c, d, e, f, g, h, i⟩)
    (fun _ => rfl) (fun _ => rfl)

structure CcaDone where
  endTime : BsTime
  rssiAve : RssiPower
  rssiMax : RssiPower
  modRxPower : RssiPower
  modFound : UInt8
  rssiOverthreshold : UInt8

instance : Packed CcaDone :=
  .map (fun s => (s.endTime, s.rssiAve, s.rssiMax, s.modRxPower, s.modFound, s.rssiOverthreshold))
    (fun (a, b, c, d, e, f) => ⟨a, b, c, d, e, f⟩) (fun _ => rfl) (fun _ => rfl)

-- ---------------------------------------------------------------------------
-- Message headers, from device to phy
-- ---------------------------------------------------------------------------

def msgTx : PcHeader := 0x02
def msgRx : PcHeader := 0x11
def msgRxcont : PcHeader := 0x12
def msgRxstop : PcHeader := 0x13
def msgRssimeas : PcHeader := 0x14
def msgRerespAbortreeval : PcHeader := 0x15
def msgRxv2cont : PcHeader := 0x16
def msgRerespImmrssi : PcHeader := 0x17
def msgRssiv2meas : PcHeader := 0x18
def msgTxv2 : PcHeader := 0x22
def msgTx2v1 : PcHeader := 0x23
def msgRxv2 : PcHeader := 0x31
def msgCcaMeas : PcHeader := 0x32
def msgRx2v1 : PcHeader := 0x33
def msgCcav2Meas : PcHeader := 0x34

-- ---------------------------------------------------------------------------
-- Message headers, from phy to device
-- ---------------------------------------------------------------------------

def msgTxEnd : PcHeader := 0x100
def msgAbortreeval : PcHeader := 0x101
/-- The same value as `msgRxAddressfound`. -/
def msgImmrssiRrsiDone : PcHeader := 0x102
def msgRxAddressfound : PcHeader := 0x102
def msgRxEnd : PcHeader := 0x103
def msgRssiEnd : PcHeader := 0x104
def msgRxv2Addressfound : PcHeader := 0x112
def msgRxv2End : PcHeader := 0x113
def msgCcaEnd : PcHeader := 0x114

end PhyCom2G4
