import PhyCom2G4.Listen
import PhyCom2G4.Messages

/-!
# Calls of the family without callbacks

`NcReq` has a constructor for each function of the family that talks to the
phy, and `run_exec` brings all of them to one form: on a closed link the call
returns -1 at once; else it stops if it does not expect the `ongoing` it
finds; else it notes its pointers, writes its one message and, but for a
rejecting verdict, waits with its listener.
-/

namespace PhyCom2G4

open Bytes Memory Program Program.Prog LibPhyCom

variable [LibPhyCom]

inductive NcReq
  | tx (txS : Tx) (packet txDoneS : Addr)
  | txv2 (txS : Txv2) (packet txDoneS : Addr)
  | tx2v1 (txS : Tx2v1) (packet txDoneS : Addr)
  | newTxAbort (abort : Abort)
  | cca (ccaS : Cca) (ccaDoneS : Addr)
  | ccav2 (ccaS : Ccav2) (ccaDoneS : Addr)
  | newCcaAbort (abort : Abort)
  | wait (waitS : PbWait)
  | rxCont (devAccepts : Bool)
  | rxv2Cont (devAccepts : Bool) (abort : Abort)
  | newRxAbort (abort : Abort)
  | newRxv2Abort (abort : Abort)
  | immRSSI (rssiS : Rssiv2) (rssiDoneS : Addr)
  | rssi (rssiS : Rssi) (rssiDoneS : Addr)
  | rssiv2 (rssiS : Rssiv2) (rssiDoneS : Addr)
  | rx (rxS : Rx) (rxDoneS rxBuf : Addr) (bufSize : Nat)
  | rxv2 (rxS : Rxv2) (phyAddr rxDoneS rxBuf : Addr) (bufSize : Nat)
  | rx2v1 (rxS : Rx2v1) (phyAddr rxDoneS rxBuf : Addr) (bufSize : Nat)

def NcReq.exec : NcReq → M Int32
  | .tx txS packet txDoneS => devReqTxSNcB txS packet txDoneS
  | .txv2 txS packet txDoneS => devReqTxv2SNcB txS packet txDoneS
  | .tx2v1 txS packet txDoneS => devReqTx2v1SNcB txS packet txDoneS
  | .newTxAbort abort => devProvideNewTxAbortSNcB abort
  | .cca ccaS ccaDoneS => devReqCcaSNcB ccaS ccaDoneS
  | .ccav2 ccaS ccaDoneS => devReqCcav2SNcB ccaS ccaDoneS
  | .newCcaAbort abort => devProvideNewCcaAbortSNcB abort
  | .wait waitS => devReqWaitSNcB waitS
  | .rxCont devAccepts => devRxContAfterAddrSNcB devAccepts
  | .rxv2Cont devAccepts abort => devRxv2ContAfterAddrSNcB devAccepts abort
  | .newRxAbort abort => devProvideNewRxAbortSNcB abort
  | .newRxv2Abort abort => devProvideNewRxv2AbortSNcB abort
  | .immRSSI rssiS rssiDoneS => devReqImmRSSISNcB rssiS rssiDoneS
  | .rssi rssiS rssiDoneS => devReqRSSISNcB rssiS rssiDoneS
  | .rssiv2 rssiS rssiDoneS => devReqRSSIv2SNcB rssiS rssiDoneS
  | .rx rxS rxDoneS rxBuf bufSize => devReqRxSNcB rxS rxDoneS rxBuf bufSize
  | .rxv2 rxS phyAddr rxDoneS rxBuf bufSize => devReqRxv2SNcB rxS phyAddr rxDoneS rxBuf bufSize
  | .rx2v1 rxS phyAddr rxDoneS rxBuf bufSize => devReqRx2v1SNcB rxS phyAddr rxDoneS rxBuf bufSize

-- ---------------------------------------------------------------------------
-- What a call checks, notes, says and waits for
-- ---------------------------------------------------------------------------

/-- The `ongoing` a call insists on; a few check nothing. -/
def NcReq.expects : NcReq → Option OngoingTransaction
  | .tx .. | .txv2 .. | .tx2v1 .. | .cca .. | .ccav2 .. | .rx .. | .rxv2 .. | .rx2v1 .. =>
    some .nothing
  | .newTxAbort _ => some .txAbortReeval
  | .newCcaAbort _ => some .ccaAbortReeval
  | .newRxAbort _ | .newRxv2Abort _ | .immRSSI .. => some .rxAbortReeval
  | .rxCont _ | .rxv2Cont .. => some .rxHeaderEval
  | .wait _ | .rssi .. | .rssiv2 .. => none

def NcReq.passes (c : NcReq) (nc : DevStateNc) : Bool := c.expects.all (nc.ongoing = ·)

def NcReq.complaint : NcReq → String
  | .tx .. | .txv2 .. | .tx2v1 .. =>
    "Tried to request a new tx while some other transaction was ongoing\n"
  | .cca .. | .ccav2 .. => "Tried to request a new CCA while some other transaction was ongoing\n"
  | .rx .. | .rxv2 .. | .rx2v1 .. =>
    "Tried to request a new Rx while another transaction was ongoing\n"
  | .newTxAbort _ =>
    "Tried to send a new Tx Abort substruct but we are not in a Tx transaction abort reevaluation!\n"
  | .newCcaAbort _ =>
    "Tried to send a new CCA Abort substruct but we are not in a CCA transaction abort reevaluation!\n"
  | .newRxAbort _ | .newRxv2Abort _ =>
    "Tried to send a new Rx Abort substruct but we are not in a Rx transaction abort reevaluation!\n"
  | .immRSSI .. =>
    "Tried to send a new Rx RSSI immediate request but we are not in a Rx transaction abort reevaluation!\n"
  | .rxCont _ | .rxv2Cont .. =>
    "Tried to continue from an Rx Header eval, but we are not doing that now..\n"
  | .wait _ | .rssi .. | .rssiv2 .. => ""

/-- The pointers noted before `ongoing` is checked. -/
def NcReq.notesFirst : NcReq → DevStateNc → DevStateNc
  | .tx _ _ txDoneS, s | .txv2 _ _ txDoneS, s | .tx2v1 _ _ txDoneS, s => { s with txDoneS }
  | .cca _ ccaDoneS, s | .ccav2 _ ccaDoneS, s => { s with ccaDoneS }
  | _, s => s

def NcReq.notes : NcReq → DevStateNc → DevStateNc
  | .rx _ rxDoneS rxBuf bufSize, s =>
    { s with rxDoneS, rxbuf := rxBuf, bufsize := bufSize, weGotAddress := false }
  | .rxv2 _ _ rxDoneS rxBuf bufSize, s | .rx2v1 _ _ rxDoneS rxBuf bufSize, s =>
    { s with rxv2DoneS := rxDoneS, rxbuf := rxBuf, bufsize := bufSize, weGotAddress := false }
  | c, s => c.notesFirst s

def NcReq.message (mem : Mem) : NcReq → DevMsg
  | .tx s packet _ => .tx s (parse (load mem packet s.packetSize.toNat))
  | .txv2 s packet _ => .txv2 s (parse (load mem packet s.packetSize.toNat))
  | .tx2v1 s packet _ => .tx2v1 s (parse (load mem packet s.packetSize.toNat))
  | .newTxAbort abort | .newCcaAbort abort | .newRxAbort abort | .newRxv2Abort abort =>
    .rerespAbortreeval abort
  | .cca s _ => .ccaMeas s
  | .ccav2 s _ => .ccav2Meas s
  | .wait s => .wait s
  | .rxCont true => .rxcont
  | .rxv2Cont true abort => .rxv2cont abort
  | .rxCont false | .rxv2Cont false _ => .rxstop
  | .immRSSI s _ => .rerespImmrssi s
  | .rssi s _ => .rssimeas s
  | .rssiv2 s _ => .rssiv2meas s
  | .rx s .. => .rx s
  | .rxv2 s phyAddr .. => .rxv2 s (parse (load mem phyAddr (s.nAddr.toNat * sizeof Address)))
  | .rx2v1 s phyAddr .. => .rx2v1 s (parse (load mem phyAddr (s.nAddr.toNat * sizeof Address)))

def NcReq.events (mem : Mem) (c : NcReq) : List Event :=
  match c with
  | .rxCont _ => [.raw (bytes (c.message mem).header)]
  | .rxv2Cont true abort => [.raw (bytes msgRxv2cont), .raw (bytes abort)]
  | .rxv2Cont false _ => [.raw (bytes msgRxstop)]
  | c => (c.message mem).events

def NcReq.listener : NcReq → Option Listener
  | .tx .. | .txv2 .. | .tx2v1 .. | .newTxAbort _ => some .tx
  | .cca .. | .ccav2 .. | .newCcaAbort _ => some .cca
  | .rx .. | .newRxAbort _ | .rxCont true => some (.rx .v1)
  | .rxv2 .. | .rx2v1 .. | .newRxv2Abort _ | .rxv2Cont true _ => some (.rx .v2)
  | .immRSSI _ rssiDoneS | .rssi _ rssiDoneS | .rssiv2 _ rssiDoneS => some (.rssi rssiDoneS)
  | .wait _ => some .wait
  | .rxCont false | .rxv2Cont false _ => none

def NcReq.spoken (c : NcReq) (w : World) : World :=
  { w.sent (c.events w.mem) with nc := c.notes w.nc }

def NcReq.proceed (c : NcReq) (w : World) : Except Stop Int32 × World :=
  match c.listener with
  | some l => (l.hear (c.notes w.nc) w.link.ptd).outcome l (c.spoken w)
  | none => (.ok 0, (c.spoken w).setOngoing .nothing)

-- ---------------------------------------------------------------------------
-- Every call has this form
-- ---------------------------------------------------------------------------

section
variable {w : World}

theorem run_guardOngoing (o : OngoingTransaction) (text : String) :
    (guardOngoing o text).run w =
      if w.nc.ongoing = o then (.ok (), w) else (.error (.error text), w) := by
  simp only [guardOngoing, run_bind, run_get, run_ite, run_traceError, run_pure]
  by_cases h : w.nc.ongoing = o <;> simp [h]

theorem run_guardOngoing_pass (h : w.nc.ongoing = o) :
    (guardOngoing o text).run w = (.ok (), w) := by
  rw [run_guardOngoing, if_pos h]

@[simp] theorem spoken_link (c : NcReq) :
    (c.spoken w).link = w.link.add (c.events w.mem) := rfl

@[simp] theorem spoken_nc (c : NcReq) : (c.spoken w).nc = c.notes w.nc := rfl

@[simp] theorem spoken_mem (c : NcReq) : (c.spoken w).mem = w.mem := rfl

@[simp] theorem notesFirst_ongoing (c : NcReq) (nc : DevStateNc) :
    (c.notesFirst nc).ongoing = nc.ongoing := by
  cases c <;> rfl

@[simp] theorem notes_ongoing (c : NcReq) (nc : DevStateNc) :
    (c.notes nc).ongoing = nc.ongoing := by
  cases c <;> rfl

theorem run_listen_spoken (hc : w.link.connected = true) (c : NcReq) (l : Listener) :
    l.listen.run (c.spoken w) = (l.hear (c.notes w.nc) w.link.ptd).outcome l (c.spoken w) :=
  run_listen (w := c.spoken w) hc l

theorem run_exec_closed (hc : w.link.connected = false) (c : NcReq) :
    c.exec.run w = (.ok (-1), w) := by
  have hwait : ∀ s, (devReqWaitSNcB s).run w = (.ok (-1), w) := fun s => by
    simp [devReqWaitSNcB, pbDevRequestWaitBlock_eq, pbDevRequestWaitNonblock_closed _ _ hc]
  cases c with
  | wait s => exact hwait s
  | _ => exact (run_checkConnected _ _).trans (if_neg (by simp [hc]))

theorem run_exec_stopped (hc : w.link.connected = true) (c : NcReq) (hp : c.passes w.nc = false) :
    c.exec.run w = (.error (.error c.complaint), { w with nc := c.notesFirst w.nc }) := by
  cases c with
  | wait s => simp [NcReq.passes, NcReq.expects] at hp
  | rssi => simp [NcReq.passes, NcReq.expects] at hp
  | rssiv2 => simp [NcReq.passes, NcReq.expects] at hp
  | _ =>
    refine (run_checkConnected _ _).trans ((if_pos hc).trans ?_)
    simp [NcReq.passes, NcReq.expects] at hp
    simp [run_guardOngoing, hp, NcReq.complaint, NcReq.notesFirst]

theorem passes_iff {c : NcReq} {nc : DevStateNc} (h : c.expects = some o) :
    c.passes nc = true ↔ nc.ongoing = o := by
  simp [NcReq.passes, h]

theorem run_guarded (hc : w.link.connected = true) (hp : w.nc.ongoing = o) (m : M Int32) :
    (checkConnected (-1) (guardOngoing o text >>= fun _ => m)).run w = m.run w := by
  rw [run_checkConnected, if_pos hc, run_bind, run_guardOngoing_pass hp]

theorem run_reqTxSNcB (hc : w.link.connected = true) (hp : w.nc.ongoing = .nothing)
    (hreq : request.run { w with nc := { w.nc with txDoneS } } = (.ok (), w')) :
    (reqTxSNcB request txDoneS).run w = devGetTxRespNc.run w' := by
  refine (run_checkConnected _ _).trans ((if_pos hc).trans ?_)
  rw [run_bind, run_modifyNc]
  dsimp only
  rw [run_bind, run_guardOngoing_pass (by exact hp)]
  dsimp only
  rw [run_bind, hreq]

theorem run_reqCcaSNcB (hc : w.link.connected = true) (hp : w.nc.ongoing = .nothing)
    (hreq : request.run { w with nc := { w.nc with ccaDoneS } } = (.ok (), w')) :
    (reqCcaSNcB request ccaDoneS).run w = devGetCcaRespNc.run w' := by
  refine (run_checkConnected _ _).trans ((if_pos hc).trans ?_)
  rw [run_bind, run_modifyNc]
  dsimp only
  rw [run_bind, run_guardOngoing_pass (by exact hp)]
  dsimp only
  rw [run_bind, hreq]

theorem run_reqRxSNcB (hc : w.link.connected = true) (hp : w.nc.ongoing = .nothing)
    (hreq : request.run w = (.ok (), w.sent es)) (register : DevStateNc → DevStateNc)
    (rxBuf : Addr) (bufSize : Nat) (handle : PcHeader → M Int32) :
    (reqRxSNcB request register rxBuf bufSize handle).run w =
      (pickRxResponse handle).run { w.sent es with nc :=
        { register w.nc with bufsize := bufSize, rxbuf := rxBuf, weGotAddress := false } } := by
  refine (run_guarded hc hp _).trans ?_
  rw [run_bind, hreq]
  rfl

theorem run_exec_listen (hc : w.link.connected = true) (c : NcReq) (hp : c.passes w.nc = true)
    (hl : c.listener = some l) : c.exec.run w = l.listen.run (c.spoken w) := by
  -- Each call's listener is read off its constructor.
  cases c <;> simp only [NcReq.listener, Option.some.injEq] at hl
  case tx s packet d =>
    subst hl
    exact run_reqTxSNcB hc ((passes_iff rfl).mp hp) (run_devReqTxI s packet)
  case txv2 s packet d =>
    subst hl
    exact run_reqTxSNcB hc ((passes_iff rfl).mp hp) (run_devReqTxv2I s packet)
  case tx2v1 s packet d =>
    subst hl
    exact run_reqTxSNcB hc ((passes_iff rfl).mp hp) (run_devReqTx2v1I s packet)
  case newTxAbort abort | newCcaAbort abort | newRxAbort abort | newRxv2Abort abort =>
    subst hl
    refine (run_guarded hc ((passes_iff rfl).mp hp) _).trans ?_
    rw [run_bind, run_sendMsg]
    rfl
  case cca s d =>
    subst hl
    exact run_reqCcaSNcB hc ((passes_iff rfl).mp hp) (run_sendMsg msgCcaMeas s)
  case ccav2 s d =>
    subst hl
    exact run_reqCcaSNcB hc ((passes_iff rfl).mp hp) (run_sendMsg msgCcav2Meas s)
  case wait s =>
    subst hl
    simp only [NcReq.exec, devReqWaitSNcB, run_attempt, pbDevRequestWaitBlock_eq,
      pbDevRequestWaitNonblock_open _ _ hc, if_true]
    rfl
  case rxCont devAccepts =>
    cases devAccepts with
    | false => simp at hl
    | true =>
      simp only [Option.some.injEq] at hl
      subst hl
      refine (run_guarded hc ((passes_iff rfl).mp hp) _).trans ?_
      rw [run_bind, run_writeDtp]
      rfl
  case rxv2Cont devAccepts abort =>
    cases devAccepts with
    | false => simp at hl
    | true =>
      simp only [Option.some.injEq] at hl
      subst hl
      refine (run_guarded hc ((passes_iff rfl).mp hp) _).trans ?_
      simp only [if_true, run_bind, run_writeDtp, sent_sent]
      rfl
  case immRSSI s d =>
    subst hl
    refine (run_guarded hc ((passes_iff rfl).mp hp) _).trans ?_
    rw [run_bind, run_sendMsg]
    rfl
  case rssi s d | rssiv2 s d =>
    subst hl
    refine (run_checkConnected _ _).trans ((if_pos hc).trans ?_)
    rw [run_bind, run_sendMsg]
    rfl
  case rx s d buf size =>
    subst hl
    exact run_reqRxSNcB hc ((passes_iff rfl).mp hp) (run_sendMsg msgRx s) _ _ _ _
  case rxv2 s phyAddr d buf size =>
    subst hl
    exact run_reqRxSNcB hc ((passes_iff rfl).mp hp) (run_sendRxAddr_rxv2 s phyAddr) _ _ _ _
  case rx2v1 s phyAddr d buf size =>
    subst hl
    exact run_reqRxSNcB hc ((passes_iff rfl).mp hp) (run_sendRxAddr_rx2v1 s phyAddr) _ _ _ _

theorem run_exec_reject (hc : w.link.connected = true) (c : NcReq) (hp : c.passes w.nc = true)
    (hl : c.listener = none) : c.exec.run w = (.ok 0, (c.spoken w).setOngoing .nothing) := by
  cases c <;> simp only [NcReq.listener, reduceCtorEq] at hl
  case rxCont devAccepts =>
    cases devAccepts with
    | true => simp at hl
    | false =>
      refine (run_guarded hc ((passes_iff rfl).mp hp) _).trans ?_
      rw [run_bind, run_writeDtp]
      rfl
  case rxv2Cont devAccepts abort =>
    cases devAccepts with
    | true => simp at hl
    | false =>
      refine (run_guarded hc ((passes_iff rfl).mp hp) _).trans ?_
      simp only [Bool.false_eq_true, if_false, run_bind, run_writeDtp]
      rfl

theorem run_exec_heard (hc : w.link.connected = true) (c : NcReq) (hp : c.passes w.nc = true)
    (hl : c.listener = some l) :
    c.exec.run w = (l.hear (c.notes w.nc) w.link.ptd).outcome l (c.spoken w) :=
  (run_exec_listen hc c hp hl).trans (run_listen_spoken hc c l)

theorem run_exec_open (hc : w.link.connected = true) (c : NcReq) (hp : c.passes w.nc = true) :
    c.exec.run w = c.proceed w := by
  unfold NcReq.proceed
  cases hl : c.listener with
  | none => exact run_exec_reject hc c hp hl
  | some l => exact run_exec_heard hc c hp hl

end

end PhyCom2G4
