import PhyCom2G4.CbCalls
import PhyCom2G4.NcCalls

/-!
# Any call of the library

The calls that do not block on a whole transaction complete the family with
callbacks, and `Call` puts both families together with the calls that end a
session; `InitCom` are those that open one. On a closed link no `Call` does
anything.
-/

namespace PhyCom2G4

open Bytes Memory Program Program.Prog LibPhyCom

variable [LibPhyCom]

inductive CbReq
  | transaction (t : Transaction)
  | txNoWait (txS : Tx) (packet : Addr)
  | txv2NoWait (txS : Txv2) (packet : Addr)
  | pickTxresp (txDoneS : Addr)
  | rssi (rssiS : Rssi) (rssiDoneS : Addr)
  | rssiv2 (rssiS : Rssiv2) (rssiDoneS : Addr)
  | wait (waitS : PbWait)
  | waitNoWait (waitS : PbWait)
  | pickWait

def CbReq.exec : CbReq → M Int32
  | .transaction t => do
    let (ret, _) ← t.blocking
    pure ret
  | .txNoWait txS packet => devReqTxSC txS packet
  | .txv2NoWait txS packet => devReqTxv2SC txS packet
  | .pickTxresp txDoneS => devPickTxrespSCB txDoneS
  | .rssi rssiS rssiDoneS => devReqRSSISCB rssiS rssiDoneS
  | .rssiv2 rssiS rssiDoneS => devReqRSSIv2SCB rssiS rssiDoneS
  | .wait waitS => devReqWaitSCB waitS
  | .waitNoWait waitS => devReqWaitSC waitS
  | .pickWait => devPickWaitRespSCB

inductive Call
  | nc (c : NcReq)
  | cb (c : CbReq)
  | disconnect
  | terminate

def Call.exec : Call → M Int32
  | .nc c => c.exec
  | .cb c => c.exec
  | .disconnect => do
    devDisconnectSNc
    pure 0
  | .terminate => do
    devTerminateSNc
    pure 0

/-- The calls that open a session: without callbacks, the same with the state
in the library, and with callbacks. -/
inductive InitCom
  | comSNc (d : UInt32) (s p : String)
  | comNc (d : UInt32) (s p : String)
  | comSC (d : UInt32) (s p : String) (abortF : Option DevAbortReevalF)

def InitCom.exec : InitCom → M Int32
  | .comSNc d s p => devInitComSNc d s p
  | .comNc d s p => devInitcomNc d s p
  | .comSC d s p abortF => devInitcomSC d s p abortF

-- ---------------------------------------------------------------------------
-- The calls that wait at most once
-- ---------------------------------------------------------------------------

def CbReq.message (mem : Mem) : CbReq → Option DevMsg
  | .transaction t => some (t.message mem)
  | .txNoWait s packet => some (.tx s (parse (load mem packet s.packetSize.toNat)))
  | .txv2NoWait s packet => some (.txv2 s (parse (load mem packet s.packetSize.toNat)))
  | .rssi s _ => some (.rssimeas s)
  | .rssiv2 s _ => some (.rssiv2meas s)
  | .wait s | .waitNoWait s => some (.wait s)
  | .pickTxresp _ | .pickWait => none

def CbReq.spoken (c : CbReq) (w : World) : World :=
  match c.message w.mem with
  | some m => w.sent m.events
  | none => w

/-- The pick-up of a transmission's answer: no re-evaluation is expected. -/
def pickTx (txDoneS : Addr) (w : World) : Except Stop Int32 × World :=
  match split (sizeof PcHeader) w.link.ptd with
  | none => (.ok (-1), w.cut (sizeof PcHeader))
  | some (hb, rest) =>
    let f := finish msgTxEnd (sizeof TxDone) (parse hb) rest
    (f.ret 0 (parse hb), f.world (sizeof TxDone) txDoneS (w.took (sizeof PcHeader) rest))

def CbReq.proceed (c : CbReq) (w : World) : Except Stop Int32 × World :=
  match c with
  | .transaction t => ((t.proceed w).1.map Prod.fst, (t.proceed w).2)
  | .txNoWait .. | .txv2NoWait .. | .waitNoWait _ => (.ok 0, c.spoken w)
  | .pickTxresp txDoneS => pickTx txDoneS w
  | .rssi _ rssiDoneS | .rssiv2 _ rssiDoneS =>
    ((Listener.rssi rssiDoneS).hear w.nc w.link.ptd).outcome (.rssi rssiDoneS) (c.spoken w)
  | .wait _ | .pickWait => (Listener.wait.hear w.nc w.link.ptd).outcome .wait (c.spoken w)

section
variable {w : World}

theorem run_devGetTxRespI (hc : w.link.connected = true) (txDoneS : Addr) :
    (devGetTxRespI txDoneS).run w = pickTx txDoneS w := by
  simp only [devGetTxRespI, run_bind, run_devReadHeader hc, pickTx]
  cases split (sizeof PcHeader) w.link.ptd with
  | none => rfl
  | some r =>
    simp only [readOk_ne, if_false]
    exact run_handleRespI_finish (by exact hc) _ _ _ _

theorem run_cb_open (hc : w.link.connected = true) (c : CbReq) : c.exec.run w = c.proceed w := by
  cases c with
  | transaction t =>
    simp only [CbReq.exec, run_bind, run_blocking_open hc, CbReq.proceed]
    rcases t.proceed w with ⟨_ | r, w'⟩ <;> rfl
  | txNoWait s packet =>
    refine (run_checkConnected _ _).trans ((if_pos hc).trans ?_)
    rw [run_bind, run_devReqTxI]
    rfl
  | txv2NoWait s packet =>
    refine (run_checkConnected _ _).trans ((if_pos hc).trans ?_)
    rw [run_bind, run_devReqTxv2I]
    rfl
  | pickTxresp d =>
    exact (run_checkConnected _ _).trans ((if_pos hc).trans (run_devGetTxRespI hc d))
  | rssi s d =>
    refine (run_checkConnected _ _).trans ((if_pos hc).trans ?_)
    rw [run_bind, run_sendMsg]
    exact run_devGetRssiRespI (by exact hc) d
  | rssiv2 s d =>
    refine (run_checkConnected _ _).trans ((if_pos hc).trans ?_)
    rw [run_bind, run_sendMsg]
    exact run_devGetRssiRespI (by exact hc) d
  | wait s =>
    refine Eq.trans ?_ (run_devPickWaitRespSCB (w := w.sent (DevMsg.wait s).events) hc)
    simp only [CbReq.exec, devReqWaitSCB, run_attempt, pbDevRequestWaitBlock_eq,
      pbDevRequestWaitNonblock_open _ _ hc, if_true]
    rfl
  | waitNoWait s =>
    simp only [CbReq.exec, devReqWaitSC, run_act, pbDevRequestWaitNonblock_open _ _ hc]
    rfl
  | pickWait => exact run_devPickWaitRespSCB hc

theorem run_cb_closed (hc : w.link.connected = false) (c : CbReq) :
    c.exec.run w = (.ok (-1), w) := by
  cases c with
  | transaction t => simp [CbReq.exec, run_blocking_closed hc]
  | wait s =>
    simp [CbReq.exec, devReqWaitSCB, pbDevRequestWaitBlock_eq,
      pbDevRequestWaitNonblock_closed _ _ hc]
  | waitNoWait s => simp [CbReq.exec, devReqWaitSC, pbDevRequestWaitNonblock_closed _ _ hc]
  | pickWait => simp [CbReq.exec, devPickWaitRespSCB, pbDevPickWaitResp_closed _ hc]
  | _ => exact run_checkConnected_closed hc _ _

/-- A call's return value on a closed link; the two last return nothing. -/
def Call.closedRet : Call → Int32
  | .nc _ | .cb _ => -1
  | .disconnect | .terminate => 0

theorem run_call_closed (hc : w.link.connected = false) (c : Call) :
    c.exec.run w = (.ok c.closedRet, w) := by
  cases c with
  | nc c => exact run_exec_closed hc c
  | cb c => exact run_cb_closed hc c
  | disconnect =>
    rw [Call.exec, run_bind, devDisconnectSNc, run_devDisconnect_closed hc]
    rfl
  | terminate =>
    rw [Call.exec, run_bind, devTerminateSNc, run_devTerminate_closed hc]
    rfl

theorem run_initCom (i : InitCom)
    (h : w.link.connected = false ∨ (i.exec.run w).1 = .ok 0) :
    ∃ ret, (i.exec.run w).1 = .ok ret ∧
      (ret = 0 ∧ (i.exec.run w).2.link = ⟨true, [], []⟩ ∨
        ret ≠ 0 ∧ (i.exec.run w).2.link = w.link) := by
  have hcom : ∀ d s p, (w.link.connected = false ∨ (pbDevInitCom d s p w.link).1 = 0) →
      (pbDevInitCom d s p w.link).1 = 0 ∧ (pbDevInitCom d s p w.link).2 = ⟨true, [], []⟩ ∨
      (pbDevInitCom d s p w.link).1 ≠ 0 ∧ (pbDevInitCom d s p w.link).2 = w.link := by
    intro d s p h
    by_cases h0 : (pbDevInitCom d s p w.link).1 = 0
    · exact .inl ⟨h0, pbDevInitCom_ok _ _ _ _ h0⟩
    · exact .inr ⟨h0, pbDevInitCom_fail _ _ _ _ h0 (h.resolve_right h0)⟩
  cases i with
  | comSNc d s p => exact ⟨_, rfl, hcom d s p (h.imp_right Except.ok.inj)⟩
  | comNc d s p => exact ⟨_, rfl, hcom d s p (h.imp_right Except.ok.inj)⟩
  | comSC d s p abortF => exact ⟨_, rfl, hcom d s p (h.imp_right Except.ok.inj)⟩

end

end PhyCom2G4
