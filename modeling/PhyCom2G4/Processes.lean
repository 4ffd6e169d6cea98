import PhyCom2G4.Calls
import PhyCom2G4.Lib.Regions
import PhyCom2G4.Lib.Unwinding

/-!
# Programs with several devices

A program may talk to the phy as several devices, each with a state of its own.
They share its memory, and one that stops stops them all. bs_pc_2G4.c keeps two
of these states itself, one for each family, and its functions call through to
those that are given one.
-/

namespace PhyCom2G4

open Bytes Memory Regions Program Program.Prog LibPhyCom

variable [LibPhyCom]

-- ---------------------------------------------------------------------------
-- Devices of a program
-- ---------------------------------------------------------------------------

/-- What is a device's own: `p2G4_dev_state_nc_t` or `p2G4_dev_state_s_t`, and the
callbacks made on its behalf. -/
structure Dev where
  link : PbDevState
  nc : DevStateNc
  abortF : Option DevAbortReevalF
  calls : List Callback

def World.dev (w : World) : Dev := ⟨w.link, w.nc, w.abortF, w.calls⟩

def Dev.world (d : Dev) (s : Store) : World :=
  ⟨d.link, d.nc, d.abortF, s.mem, s.ptr, s.heap, d.calls⟩

structure Process (ι : Type) where
  dev : ι → Dev
  /-- What the calls returned that were made as a device. -/
  rets : ι → List Int32
  store : Store
  /-- Why the program stopped, if it did. -/
  stop : Option Stop

def Process.world (i : ι) (p : Process ι) : World := (p.dev i).world p.store

section
variable {ι : Type} [DecidableEq ι]

def Process.setWorld (i : ι) (w : World) (p : Process ι) : Process ι :=
  { p with dev := Function.update p.dev i w.dev, store := w.store }

def onDev (i : ι) (m : M α) : Prog Stop (Process ι) α := attempt fun p =>
  let r := m.run (p.world i)
  (r.1, p.setWorld i r.2)

end

-- ---------------------------------------------------------------------------
-- bs_pc_2G4.c
-- ---------------------------------------------------------------------------

inductive Static
  | c2G4DevSt
  | c2G4DevStNc
  deriving DecidableEq

def Dev.init : Dev where
  link := ⟨false, [], []⟩
  nc := ⟨.nothing, 0, 0, 0, 0, 0, 0, false⟩
  abortF := none
  calls := []

abbrev C (α : Type) := Prog Stop (Process Static) α

def devInitcomC (d : UInt32) (s p : String) (abortF : Option DevAbortReevalF) : C Int32 :=
  onDev .c2G4DevSt (devInitcomSC d s p abortF)

def devTerminateC : C Unit := onDev .c2G4DevSt devTerminateSC

def devDisconnectC : C Unit := onDev .c2G4DevSt devDisconnectSC

def devReqTxCB (txS : Tx) (packet txDoneS : Addr) : C (Int32 × Tx) :=
  onDev .c2G4DevSt (devReqTxSCB txS packet txDoneS)

def devReqTxv2CB (txS : Txv2) (packet txDoneS : Addr) : C (Int32 × Txv2) :=
  onDev .c2G4DevSt (devReqTxv2SCB txS packet txDoneS)

def devReqTx2v1CB (txS : Tx2v1) (packet txDoneS : Addr) : C (Int32 × Tx2v1) :=
  onDev .c2G4DevSt (devReqTx2v1SCB txS packet txDoneS)

def devReqRxCB (rxS : Rx) (rxDoneS buf : Addr) (size : Nat) (evalF : Option DeviceEvalRxF) :
    C (Int32 × Rx) :=
  onDev .c2G4DevSt (devReqRxSCB rxS rxDoneS buf size evalF)

def devReqRxv2CB (rxS : Rxv2) (phyAddr rxDoneS buf : Addr) (size : Nat)
    (evalF : Option DeviceEvalRxF) : C (Int32 × Rxv2) :=
  onDev .c2G4DevSt (devReqRxv2SCB rxS phyAddr rxDoneS buf size evalF)

def devReqRx2v1CB (rxS : Rx2v1) (phyAddr rxDoneS buf : Addr) (size : Nat)
    (evalF : Option DeviceEvalRxF) : C (Int32 × Rx2v1) :=
  onDev .c2G4DevSt (devReqRx2v1SCB rxS phyAddr rxDoneS buf size evalF)

def devReqRSSICB (rssiS : Rssi) (rssiDoneS : Addr) : C Int32 :=
  onDev .c2G4DevSt (devReqRSSISCB rssiS rssiDoneS)

def devReqRSSIv2CB (rssiS : Rssiv2) (rssiDoneS : Addr) : C Int32 :=
  onDev .c2G4DevSt (devReqRSSIv2SCB rssiS rssiDoneS)

def devReqCcaCB (ccaS : Cca) (ccaDoneS : Addr) : C (Int32 × Cca) :=
  onDev .c2G4DevSt (devReqCcaSCB ccaS ccaDoneS)

def devReqCcav2CB (ccaS : Ccav2) (ccaDoneS : Addr) : C (Int32 × Ccav2) :=
  onDev .c2G4DevSt (devReqCcav2SCB ccaS ccaDoneS)

def devReqWaitCB (waitS : PbWait) : C Int32 := onDev .c2G4DevSt (devReqWaitSCB waitS)

def initcomNc (d : UInt32) (s p : String) : C Int32 := onDev .c2G4DevStNc (devInitcomNc d s p)

def devTerminateNc : C Unit := onDev .c2G4DevStNc devTerminateSNc

def devDisconnectNc : C Unit := onDev .c2G4DevStNc devDisconnectSNc

def devReqTxNcB (txS : Tx) (packet txDoneS : Addr) : C Int32 :=
  onDev .c2G4DevStNc (devReqTxSNcB txS packet txDoneS)

def devReqTxv2NcB (txS : Txv2) (packet txDoneS : Addr) : C Int32 :=
  onDev .c2G4DevStNc (devReqTxv2SNcB txS packet txDoneS)

def devReqTx2v1NcB (txS : Tx2v1) (packet txDoneS : Addr) : C Int32 :=
  onDev .c2G4DevStNc (devReqTx2v1SNcB txS packet txDoneS)

def devProvideNewTxAbortNcB (abort : Abort) : C Int32 :=
  onDev .c2G4DevStNc (devProvideNewTxAbortSNcB abort)

def devReqRxNcB (rxS : Rx) (rxDoneS buf : Addr) (size : Nat) : C Int32 :=
  onDev .c2G4DevStNc (devReqRxSNcB rxS rxDoneS buf size)

def devReqRxv2NcB (rxS : Rxv2) (phyAddr rxDoneS buf : Addr) (size : Nat) : C Int32 :=
  onDev .c2G4DevStNc (devReqRxv2SNcB rxS phyAddr rxDoneS buf size)

def devReqRx2v1NcB (rxS : Rx2v1) (phyAddr rxDoneS buf : Addr) (size : Nat) : C Int32 :=
  onDev .c2G4DevStNc (devReqRx2v1SNcB rxS phyAddr rxDoneS buf size)

def devRxContAfterAddrNcB (acceptRx : Bool) : C Int32 :=
  onDev .c2G4DevStNc (devRxContAfterAddrSNcB acceptRx)

def devRxv2ContAfterAddrNcB (acceptRx : Bool) (abort : Abort) : C Int32 :=
  onDev .c2G4DevStNc (devRxv2ContAfterAddrSNcB acceptRx abort)

def devProvideNewRxAbortNcB (abort : Abort) : C Int32 :=
  onDev .c2G4DevStNc (devProvideNewRxAbortSNcB abort)

def devProvideNewRxv2AbortNcB (abort : Abort) : C Int32 :=
  onDev .c2G4DevStNc (devProvideNewRxv2AbortSNcB abort)

def devReqImmRSSINcB (rssiS : Rssiv2) (rssiDoneS : Addr) : C Int32 :=
  onDev .c2G4DevStNc (devReqImmRSSISNcB rssiS rssiDoneS)

def devReqRSSINcB (rssiS : Rssi) (rssiDoneS : Addr) : C Int32 :=
  onDev .c2G4DevStNc (devReqRSSISNcB rssiS rssiDoneS)

def devReqRSSIv2NcB (rssiS : Rssiv2) (rssiDoneS : Addr) : C Int32 :=
  onDev .c2G4DevStNc (devReqRSSIv2SNcB rssiS rssiDoneS)

def devReqWaitNcB (waitS : PbWait) : C Int32 := onDev .c2G4DevStNc (devReqWaitSNcB waitS)

def devReqCcaNcB (ccaS : Cca) (ccaDoneS : Addr) : C Int32 :=
  onDev .c2G4DevStNc (devReqCcaSNcB ccaS ccaDoneS)

def devReqCcav2NcB (ccaS : Ccav2) (ccaDoneS : Addr) : C Int32 :=
  onDev .c2G4DevStNc (devReqCcav2SNcB ccaS ccaDoneS)

def devProvideNewCcaAbortNcB (abort : Abort) : C Int32 :=
  onDev .c2G4DevStNc (devProvideNewCcaAbortSNcB abort)

/-- The namesake of a call that works on the state the library keeps. -/
def NcReq.execNc : NcReq → C Int32
  | .tx txS packet txDoneS => devReqTxNcB txS packet txDoneS
  | .txv2 txS packet txDoneS => devReqTxv2NcB txS packet txDoneS
  | .tx2v1 txS packet txDoneS => devReqTx2v1NcB txS packet txDoneS
  | .newTxAbort abort => devProvideNewTxAbortNcB abort
  | .cca ccaS ccaDoneS => devReqCcaNcB ccaS ccaDoneS
  | .ccav2 ccaS ccaDoneS => devReqCcav2NcB ccaS ccaDoneS
  | .newCcaAbort abort => devProvideNewCcaAbortNcB abort
  | .wait waitS => devReqWaitNcB waitS
  | .rxCont devAccepts => devRxContAfterAddrNcB devAccepts
  | .rxv2Cont devAccepts abort => devRxv2ContAfterAddrNcB devAccepts abort
  | .newRxAbort abort => devProvideNewRxAbortNcB abort
  | .newRxv2Abort abort => devProvideNewRxv2AbortNcB abort
  | .immRSSI rssiS rssiDoneS => devReqImmRSSINcB rssiS rssiDoneS
  | .rssi rssiS rssiDoneS => devReqRSSINcB rssiS rssiDoneS
  | .rssiv2 rssiS rssiDoneS => devReqRSSIv2NcB rssiS rssiDoneS
  | .rx rxS rxDoneS rxBuf bufSize => devReqRxNcB rxS rxDoneS rxBuf bufSize
  | .rxv2 rxS phyAddr rxDoneS rxBuf bufSize => devReqRxv2NcB rxS phyAddr rxDoneS rxBuf bufSize
  | .rx2v1 rxS phyAddr rxDoneS rxBuf bufSize => devReqRx2v1NcB rxS phyAddr rxDoneS rxBuf bufSize

def Transaction.execC : Transaction → C Int32
  | .tx txS packet txDoneS => do
    let (ret, _) ← devReqTxCB txS packet txDoneS
    pure ret
  | .txv2 txS packet txDoneS => do
    let (ret, _) ← devReqTxv2CB txS packet txDoneS
    pure ret
  | .tx2v1 txS packet txDoneS => do
    let (ret, _) ← devReqTx2v1CB txS packet txDoneS
    pure ret
  | .cca ccaS ccaDoneS => do
    let (ret, _) ← devReqCcaCB ccaS ccaDoneS
    pure ret
  | .ccav2 ccaS ccaDoneS => do
    let (ret, _) ← devReqCcav2CB ccaS ccaDoneS
    pure ret
  | .rx rxS rxDoneS rxBuf bufSize devRxevalF => do
    let (ret, _) ← devReqRxCB rxS rxDoneS rxBuf bufSize devRxevalF
    pure ret
  | .rxv2 rxS phyAddr rxDoneS rxBuf bufSize devRxevalF => do
    let (ret, _) ← devReqRxv2CB rxS phyAddr rxDoneS rxBuf bufSize devRxevalF
    pure ret
  | .rx2v1 rxS phyAddr rxDoneS rxBuf bufSize devRxevalF => do
    let (ret, _) ← devReqRx2v1CB rxS phyAddr rxDoneS rxBuf bufSize devRxevalF
    pure ret

/-- The calls that pick up an answer later have no such namesake. -/
def CbReq.execC : CbReq → Option (C Int32)
  | .transaction t => some t.execC
  | .rssi rssiS rssiDoneS => some (devReqRSSICB rssiS rssiDoneS)
  | .rssiv2 rssiS rssiDoneS => some (devReqRSSIv2CB rssiS rssiDoneS)
  | .wait waitS => some (devReqWaitCB waitS)
  | .txNoWait .. | .txv2NoWait .. | .pickTxresp _ | .waitNoWait _ | .pickWait => none

/-- "just a call thru to the stateless version library" -/
theorem execNc_eq (c : NcReq) : c.execNc = onDev .c2G4DevStNc c.exec := by
  cases c <;> rfl

theorem onDev_request {ι α : Type} [DecidableEq ι] (i : ι) (m : M (Int32 × α)) (abort : α → Abort) :
    (do let (ret, _) ← onDev i m; pure ret : Prog Stop (Process ι) Int32) = onDev i (do
      let (ret, _) ← (do let (ret, s) ← m; pure (ret, abort s) : M (Int32 × Abort))
      pure ret) := by
  funext p
  show Prog.run _ p = Prog.run _ p
  simp only [run_bind, onDev, run_attempt]
  rcases m.run (p.world i) with ⟨_ | r, w⟩ <;> rfl

theorem transactionC_eq (t : Transaction) :
    t.execC = onDev .c2G4DevSt (CbReq.exec (.transaction t)) := by
  cases t <;> exact onDev_request _ _ _

theorem execC_eq {c : CbReq} (h : c.execC = some m) : m = onDev .c2G4DevSt c.exec := by
  cases c with
  | transaction t => exact (Option.some.inj h).symm.trans (transactionC_eq t)
  | rssi | rssiv2 | wait => exact (Option.some.inj h).symm
  | _ => cases h

-- ---------------------------------------------------------------------------
-- What a program does
-- ---------------------------------------------------------------------------

inductive DevAct
  | call (c : Call)
  | initCom (i : InitCom)
  /-- The phy writes to the device. -/
  | phy (bs : List Byte)
  /-- The program writes to its memory, or sets a pointer variable. -/
  | write (p : Addr) (bs : List Byte)
  | point (q a : Addr)

def DevAct.exec : DevAct → World → Except Stop (List Int32) × World
  | .call c, w => ((c.exec.run w).1.map ([·]), (c.exec.run w).2)
  | .initCom i, w => ((i.exec.run w).1.map ([·]), (i.exec.run w).2)
  | .phy bs, w => (.ok [], { w with link := { w.link with ptd := w.link.ptd ++ bs } })
  | .write p bs, w => (.ok [], w.stored p bs)
  | .point q a, w => (.ok [], { w with ptr := Function.update w.ptr q a })

section
variable {ι : Type} [DecidableEq ι]

/-- A program that stopped does nothing more, as any of its devices. -/
def Process.exec (a : ι × DevAct) (p : Process ι) : Process ι :=
  if p.stop.isSome then p
  else
    let r := a.2.exec (p.world a.1)
    match r.1 with
    | .ok rets =>
      { p.setWorld a.1 r.2 with rets := Function.update p.rets a.1 (p.rets a.1 ++ rets) }
    | .error e => { p.setWorld a.1 r.2 with stop := some e }

def Process.called (i : ι) (m : Prog Stop (Process ι) (List Int32)) (p : Process ι) : Process ι :=
  if p.stop.isSome then p
  else match m.run p with
    | (.ok rets, p) => { p with rets := Function.update p.rets i (p.rets i ++ rets) }
    | (.error e, p) => { p with stop := some e }

theorem called_onDev (i : ι) (a : DevAct) {m : M α} (f : α → List Int32)
    (h : ∀ w, a.exec w = ((m.run w).1.map f, (m.run w).2)) (p : Process ι) :
    p.called i (f <$> onDev i m) = Process.exec (i, a) p := by
  have hrun : (f <$> onDev i m).run p =
      ((m.run (p.world i)).1.map f, p.setWorld i (m.run (p.world i)).2) := by
    show Prog.run (onDev i m >>= fun a => pure (f a)) p = _
    simp only [run_bind, onDev, run_attempt]
    rcases m.run (p.world i) with ⟨_ | a, w⟩ <;> rfl
  simp only [Process.called, Process.exec, h, hrun]
  cases (m.run (p.world i)).1 with
  | ok a => rfl
  | error e => rfl

end

/-- The function of bs_pc_2G4.c that does it, if it has one. -/
def Static.fn : Static → DevAct → Option (C (List Int32))
  | .c2G4DevStNc, .call (.nc c) => some (([·]) <$> c.execNc)
  | .c2G4DevStNc, .call .disconnect => some ((fun _ => [0]) <$> devDisconnectNc)
  | .c2G4DevStNc, .call .terminate => some ((fun _ => [0]) <$> devTerminateNc)
  | .c2G4DevStNc, .initCom (.comNc d s p) => some (([·]) <$> initcomNc d s p)
  | .c2G4DevSt, .call (.cb c) => c.execC.map (([·]) <$> ·)
  | .c2G4DevSt, .call .disconnect => some ((fun _ => [0]) <$> devDisconnectC)
  | .c2G4DevSt, .call .terminate => some ((fun _ => [0]) <$> devTerminateC)
  | .c2G4DevSt, .initCom (.comSC d s p abortF) => some (([·]) <$> devInitcomC d s p abortF)
  | _, _ => none

/-- With the states that the library keeps, a program does what it does with two states
of its own. -/
theorem called_fn {i : Static} {a : DevAct} (h : i.fn a = some m) (p : Process Static) :
    p.called i m = Process.exec (i, a) p := by
  have hleave : ∀ (m : M Unit) (c : Call), (∀ w, c.exec.run w = (do m; pure 0 : M Int32).run w) →
      p.called i ((fun _ => [0]) <$> onDev i m) = Process.exec (i, .call c) p := by
    intro m c hc
    refine called_onDev i (.call c) (fun _ => [0]) (fun w => ?_) p
    simp only [DevAct.exec, hc, run_bind]
    rcases m.run w with ⟨_ | _, _⟩ <;> rfl
  unfold Static.fn at h
  split at h
  next c =>
    cases h
    rw [execNc_eq]
    exact called_onDev _ (.call (.nc c)) _ (fun _ => rfl) p
  next => cases h; exact hleave devDisconnectSNc .disconnect fun _ => rfl
  next => cases h; exact hleave devTerminateSNc .terminate fun _ => rfl
  next d s n => cases h; exact called_onDev _ (.initCom (.comNc d s n)) _ (fun _ => rfl) p
  next c =>
    obtain ⟨m', hm', rfl⟩ := Option.map_eq_some_iff.mp h
    rw [execC_eq hm']
    exact called_onDev _ (.call (.cb c)) _ (fun _ => rfl) p
  next => cases h; exact hleave devDisconnectSC .disconnect fun _ => rfl
  next => cases h; exact hleave devTerminateSC .terminate fun _ => rfl
  next d s n f => cases h; exact called_onDev _ (.initCom (.comSC d s n f)) _ (fun _ => rfl) p
  next => cases h

end PhyCom2G4
