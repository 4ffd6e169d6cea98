import PhyCom2G4.Await
import PhyCom2G4.Messages

/-!
# Calls of the family with callbacks

`Transaction` has a constructor for each blocking request that may be asked
to re-evaluate its abort. `run_blocking` brings all eight to one form: the
request is written and its answer awaited; an address found is read, judged
and answered, and when it was accepted a second answer awaited; the answer
that is left is read by the one function that ends a transaction.
-/

namespace PhyCom2G4

open Bytes Memory Program Program.Prog LibPhyCom

variable [LibPhyCom]

inductive Transaction
  | tx (txS : Tx) (packet txDoneS : Addr)
  | txv2 (txS : Txv2) (packet txDoneS : Addr)
  | tx2v1 (txS : Tx2v1) (packet txDoneS : Addr)
  | cca (ccaS : Cca) (ccaDoneS : Addr)
  | ccav2 (ccaS : Ccav2) (ccaDoneS : Addr)
  | rx (rxS : Rx) (rxDoneS rxBuf : Addr) (bufSize : Nat) (devRxevalF : Option DeviceEvalRxF)
  | rxv2 (rxS : Rxv2) (phyAddr rxDoneS rxBuf : Addr) (bufSize : Nat)
      (devRxevalF : Option DeviceEvalRxF)
  | rx2v1 (rxS : Rx2v1) (phyAddr rxDoneS rxBuf : Addr) (bufSize : Nat)
      (devRxevalF : Option DeviceEvalRxF)

/-- The blocking call, with the abort structure of the request as it leaves it. -/
def Transaction.blocking : Transaction → M (Int32 × Abort)
  | .tx txS packet txDoneS => do
    let (ret, s) ← devReqTxSCB txS packet txDoneS
    pure (ret, s.abort)
  | .txv2 txS packet txDoneS => do
    let (ret, s) ← devReqTxv2SCB txS packet txDoneS
    pure (ret, s.abort)
  | .tx2v1 txS packet txDoneS => do
    let (ret, s) ← devReqTx2v1SCB txS packet txDoneS
    pure (ret, s.abort)
  | .cca ccaS ccaDoneS => do
    let (ret, s) ← devReqCcaSCB ccaS ccaDoneS
    pure (ret, s.abort)
  | .ccav2 ccaS ccaDoneS => do
    let (ret, s) ← devReqCcav2SCB ccaS ccaDoneS
    pure (ret, s.abort)
  | .rx rxS rxDoneS rxBuf bufSize devRxevalF => do
    let (ret, s) ← devReqRxSCB rxS rxDoneS rxBuf bufSize devRxevalF
    pure (ret, s.abort)
  | .rxv2 rxS phyAddr rxDoneS rxBuf bufSize devRxevalF => do
    let (ret, s) ← devReqRxv2SCB rxS phyAddr rxDoneS rxBuf bufSize devRxevalF
    pure (ret, s.abort)
  | .rx2v1 rxS phyAddr rxDoneS rxBuf bufSize devRxevalF => do
    let (ret, s) ← devReqRx2v1SCB rxS phyAddr rxDoneS rxBuf bufSize devRxevalF
    pure (ret, s.abort)

-- ---------------------------------------------------------------------------
-- What a transaction says and waits for
-- ---------------------------------------------------------------------------

def Transaction.abort : Transaction → Abort
  | .tx s .. => s.abort
  | .txv2 s .. => s.abort
  | .tx2v1 s .. => s.abort
  | .cca s .. => s.abort
  | .ccav2 s .. => s.abort
  | .rx s .. => s.abort
  | .rxv2 s .. => s.abort
  | .rx2v1 s .. => s.abort

def Transaction.message (mem : Mem) : Transaction → DevMsg
  | .tx s packet _ => .tx s (parse (load mem packet s.packetSize.toNat))
  | .txv2 s packet _ => .txv2 s (parse (load mem packet s.packetSize.toNat))
  | .tx2v1 s packet _ => .tx2v1 s (parse (load mem packet s.packetSize.toNat))
  | .cca s _ => .ccaMeas s
  | .ccav2 s _ => .ccav2Meas s
  | .rx s .. => .rx s
  | .rxv2 s phyAddr .. => .rxv2 s (parse (load mem phyAddr (s.nAddr.toNat * sizeof Address)))
  | .rx2v1 s phyAddr .. => .rx2v1 s (parse (load mem phyAddr (s.nAddr.toNat * sizeof Address)))

structure Reception where
  v : RxVersion
  rxBuf : Addr
  bufSize : Nat
  devRxevalF : Option DeviceEvalRxF

def Transaction.reception : Transaction → Option Reception
  | .rx _ _ rxBuf bufSize devRxevalF => some ⟨.v1, rxBuf, bufSize, devRxevalF⟩
  | .rxv2 _ _ _ rxBuf bufSize devRxevalF | .rx2v1 _ _ _ rxBuf bufSize devRxevalF =>
    some ⟨.v2, rxBuf, bufSize, devRxevalF⟩
  | _ => none

def Transaction.doneS : Transaction → Addr
  | .tx _ _ doneS | .txv2 _ _ doneS | .tx2v1 _ _ doneS | .cca _ doneS | .ccav2 _ doneS => doneS
  | .rx _ doneS _ _ _ | .rxv2 _ _ doneS _ _ _ | .rx2v1 _ _ doneS _ _ _ => doneS

def Transaction.endMsg : Transaction → PcHeader
  | .tx .. | .txv2 .. | .tx2v1 .. => msgTxEnd
  | .cca .. | .ccav2 .. => msgCcaEnd
  | .rx .. => RxVersion.v1.rxEnd
  | .rxv2 .. | .rx2v1 .. => RxVersion.v2.rxEnd

def Transaction.sizeofDone : Transaction → Nat
  | .tx .. | .txv2 .. | .tx2v1 .. => sizeof TxDone
  | .cca .. | .ccav2 .. => sizeof CcaDone
  | .rx .. => RxVersion.v1.sizeofDone
  | .rxv2 .. | .rx2v1 .. => RxVersion.v2.sizeofDone

def Transaction.endRet : Transaction → Int32
  | .rx .. => RxVersion.v1.rxEnd.toInt32
  | .rxv2 .. | .rx2v1 .. => RxVersion.v2.rxEnd.toInt32
  | _ => 0

inductive Finish
  | ended (done rest : List Byte)
  /-- The done structure comes short: what there is of it. -/
  | endCut (s : List Byte)
  | disconnect
  | invalid
  deriving DecidableEq

def finish (endMsg : PcHeader) (size : Nat) (h : PcHeader) (s : List Byte) : Finish :=
  if h = endMsg then match split size s with
    | some (done, rest) => .ended done rest
    | none => .endCut s
  else if h = msgDisconnect then .disconnect
  else .invalid

def Finish.ret (endRet : Int32) (h : PcHeader) : Finish → Except Stop Int32
  | .ended .. => .ok endRet
  | .endCut _ | .disconnect => .ok (-1)
  | .invalid => .error (.invalidResp h)

def Finish.world (size : Nat) (doneS : Addr) : Finish → World → World
  | .ended done rest, w => (w.took size rest).stored doneS done
  | .endCut s, w => (w.cut size).stored doneS (leftover size s)
  | .disconnect, w => w.shut []
  | .invalid, w => w

/-- The last wait of a transaction, begun in `w`. A wait that failed gives -1
for a header, which no transaction takes. -/
def Transaction.close (t : Transaction) (W : Wait) (w : World) :
    Except Stop (Int32 × Abort) × World :=
  match W.ending with
  | .got h rest =>
    let f := finish t.endMsg t.sizeofDone h rest
    ((f.ret t.endRet h).map (·, W.abort), f.world t.sizeofDone t.doneS (W.world w))
  | _ => (.error (.invalidResp (-1)), W.world w)

def Reception.accepts (r : Reception) (doneS : Addr) (w : World) : Int32 :=
  match r.devRxevalF with
  | some f =>
    let done := load w.mem doneS r.v.sizeofDone
    f w.calls done (load w.mem (w.ptr r.rxBuf) (r.v.packetSize done))
  | none => 1

def Reception.judged (r : Reception) (doneS : Addr) (w : World) : World :=
  match r.devRxevalF with
  | some _ =>
    let done := load w.mem doneS r.v.sizeofDone
    let packet := load w.mem (w.ptr r.rxBuf) (r.v.packetSize done)
    { w with calls := w.calls ++ [.rxEval done packet (r.accepts doneS w)] }
  | none => w

def verdict (acceptPacket : Int32) : PcHeader := if acceptPacket = 1 then msgRxcont else msgRxstop

/-- From the ADDRESSFOUND header on, `w` being the world after it and `abort`
the abort structure by then. -/
def Transaction.afterFound (t : Transaction) (r : Reception) (abort : Abort) (w : World) :
    Except Stop (Int32 × Abort) × World :=
  let f := r.v.found r.bufSize w.link.ptd
  let w := f.world r.v t.doneS r.rxBuf r.bufSize w
  if f.complete then
    let acceptPacket := r.accepts t.doneS w
    let w := (r.judged t.doneS w).sent [.raw (bytes (verdict acceptPacket))]
    if acceptPacket = 1 then t.close (await w.abortF w.calls abort w.link.ptd) w
    else (.ok (r.v.addressfound.toInt32, abort), w)
  else (.ok (-1, abort), w)

def Transaction.proceed (t : Transaction) (w : World) : Except Stop (Int32 × Abort) × World :=
  let w := w.sent (t.message w.mem).events
  let W := await w.abortF w.calls t.abort w.link.ptd
  match t.reception, W.ending with
  | some r, .got h _ =>
    if h = r.v.addressfound then t.afterFound r W.abort (W.world w) else t.close W w
  | _, _ => t.close W w

-- ---------------------------------------------------------------------------
-- Every transaction has this form
-- ---------------------------------------------------------------------------

section
variable {w : World}

theorem run_handleRespI_finish (hc : w.link.connected = true) (endMsg : PcHeader) (size : Nat)
    (h : PcHeader) (doneS : Addr) :
    (handleRespI endMsg size h doneS).run w =
      let f := finish endMsg size h w.link.ptd
      (f.ret 0 h, f.world size doneS w) := by
  rw [run_handleRespI hc, finish]
  split
  next => cases split size w.link.ptd <;> rfl
  next => split <;> rfl

theorem run_endRx (hc : w.link.connected = true) (v : RxVersion) (h : PcHeader) (doneS : Addr) :
    (endRx v h doneS).run w =
      let f := finish v.rxEnd v.sizeofDone h w.link.ptd
      (f.ret v.rxEnd.toInt32 h, f.world v.sizeofDone doneS w) := by
  simp only [endRx, run_ite, run_bind, run_devCleanUp hc, run_devRead hc, run_pure,
    run_invalidResp, finish]
  by_cases h1 : h = v.rxEnd
  · subst h1
    cases hs : split v.sizeofDone w.link.ptd <;> simp [readOk_ne, Finish.ret, Finish.world]
  · simp only [if_neg h1]
    by_cases h2 : h = msgDisconnect <;> simp [h2, Finish.ret, Finish.world]

theorem Wait.world_got {W : Wait} (hW : W.ending = .got h rest) :
    W.world w = (W.answered w).took (sizeof PcHeader) rest := by
  simp only [Wait.world, hW]

theorem Wait.header_got {W : Wait} (hW : W.ending = .got h rest) : W.header = h := by
  simp only [Wait.header, hW]

theorem minus_one_ne_header : ((-1 : PcHeader) ≠ msgTxEnd ∧ (-1 : PcHeader) ≠ msgCcaEnd) ∧
    (∀ v : RxVersion, (-1 : PcHeader) ≠ v.rxEnd ∧ (-1 : PcHeader) ≠ v.addressfound) ∧
    (-1 : PcHeader) ≠ msgDisconnect :=
  ⟨by decide, fun v => by cases v <;> decide, ne_msgDisconnect _ (by decide)⟩

structure Ends (t : Transaction) (handle : PcHeader → M Int32) : Prop where
  ends : ∀ h (w : World), w.link.connected = true → (handle h).run w =
    ((finish t.endMsg t.sizeofDone h w.link.ptd).ret t.endRet h,
      (finish t.endMsg t.sizeofDone h w.link.ptd).world t.sizeofDone t.doneS w)
  stops : ∀ w : World, (handle (-1)).run w = (.error (.invalidResp (-1)), w)

theorem Ends.run_close {t : Transaction} {handle : PcHeader → M Int32} (he : Ends t handle)
    (hc : w.link.connected = true) (abort : Abort) :
    (do
      let (h, abort) ← getRespWhileHandlingAbortreevalS abort
      let ret ← handle h
      pure (ret, abort) : M (Int32 × Abort)).run w =
    t.close (await w.abortF w.calls abort w.link.ptd) w := by
  rw [run_bind, run_getResp hc]
  dsimp only
  rw [run_bind]
  unfold Transaction.close
  cases hW : (await w.abortF w.calls abort w.link.ptd).ending with
  | cut => simp only [Wait.header, hW, he.stops]
  | refused rest => simp only [Wait.header, hW, he.stops]
  | got h rest =>
    rw [Wait.header_got hW, he.ends h _ (by rw [Wait.world_got hW]; exact hc)]
    rw [Wait.world_got hW]
    simp only [World.took_link_ptd]
    cases finish t.endMsg t.sizeofDone h rest <;> rfl

theorem run_evalRx (r : Reception) (doneS : Addr) :
    (evalRx r.v doneS r.rxBuf r.devRxevalF).run w =
      (.ok (r.accepts doneS w), r.judged doneS w) := by
  obtain ⟨v, rxBuf, bufSize, devRxevalF⟩ := r
  cases devRxevalF <;> rfl

@[simp] theorem judged_abortF (r : Reception) (doneS : Addr) :
    (r.judged doneS w).abortF = w.abortF := by
  unfold Reception.judged
  cases r.devRxevalF <;> rfl

theorem proceed_found {t : Transaction} {r : Reception} {w₀ : World} (hr : t.reception = some r)
    (hw : w.sent (t.message w.mem).events = w₀)
    (hW : await w₀.abortF w₀.calls t.abort w₀.link.ptd = W)
    (hend : W.ending = .got r.v.addressfound s) :
    t.proceed w = t.afterFound r W.abort (W.world w₀) := by
  subst hw hW
  simp only [Transaction.proceed, hr, hend, if_true]

theorem proceed_close {t : Transaction} {w₀ : World} (hw : w.sent (t.message w.mem).events = w₀)
    (hW : await w₀.abortF w₀.calls t.abort w₀.link.ptd = W)
    (hnf : ∀ h s r, W.ending = .got h s → t.reception = some r → h ≠ r.v.addressfound) :
    t.proceed w = t.close W w₀ := by
  subst hw hW
  unfold Transaction.proceed
  dsimp only
  split
  next r h s hr hend => exact if_neg (hnf h s r hend hr)
  next => rfl

theorem run_reqSCB (t : Transaction) {handle : PcHeader → M Int32} (he : Ends t handle)
    (hc : w.link.connected = true) (ht : t.reception = none)
    (hreq : request.run w = (.ok (), w.sent (t.message w.mem).events)) :
    (reqSCB request handle t.abort).run w = t.proceed w := by
  refine (run_checkConnected _ _).trans ((if_pos hc).trans ?_)
  rw [run_bind, hreq]
  dsimp only
  rw [he.run_close (by exact hc)]
  unfold Transaction.proceed
  simp only [ht]

theorem run_verdict {t : Transaction} {r : Reception} (hc : w.link.connected = true)
    (he : Ends t (endRx r.v · t.doneS)) (abort : Abort) :
    (do
      let acceptPacket ← evalRx r.v t.doneS r.rxBuf r.devRxevalF
      writeDtp (bytes (if acceptPacket = 1 then msgRxcont else msgRxstop))
      if acceptPacket ≠ 1 then pure (r.v.addressfound.toInt32, abort)
      else do
        let (rHeader, abort) ← getRespWhileHandlingAbortreevalS abort
        let ret ← endRx r.v rHeader t.doneS
        pure (ret, abort) : M (Int32 × Abort)).run w =
    let acceptPacket := r.accepts t.doneS w
    let w := (r.judged t.doneS w).sent [.raw (bytes (verdict acceptPacket))]
    if acceptPacket = 1 then t.close (await w.abortF w.calls abort w.link.ptd) w
    else (.ok (r.v.addressfound.toInt32, abort), w) := by
  have hcj : (r.judged t.doneS w).link.connected = true := by
    unfold Reception.judged
    cases r.devRxevalF <;> exact hc
  rw [run_bind, run_evalRx]
  dsimp only
  rw [run_bind, run_writeDtp]
  by_cases ha : r.accepts t.doneS w = 1
  · simp only [ha, ne_eq, not_true_eq_false, if_false, if_true]
    exact he.run_close (by exact hcj) abort
  · simp only [verdict, ha, ne_eq, not_false_eq_true, if_false, if_true]
    rfl

theorem run_afterFound {t : Transaction} {r : Reception} (hc : w.link.connected = true)
    (he : Ends t (endRx r.v · t.doneS)) (abort : Abort) :
    (do
      let ret ← devRead t.doneS r.v.sizeofDone
      if ret = -1 then pure (-1, abort)
      else do
        let w ← get
        let ret ←
          rxPickPacket (r.v.packetSize (load w.mem t.doneS r.v.sizeofDone)) r.rxBuf r.bufSize
        if ret ≠ 0 then pure (ret, abort)
        else do
          let acceptPacket ← evalRx r.v t.doneS r.rxBuf r.devRxevalF
          writeDtp (bytes (if acceptPacket = 1 then msgRxcont else msgRxstop))
          if acceptPacket ≠ 1 then pure (r.v.addressfound.toInt32, abort)
          else do
            let (rHeader, abort) ← getRespWhileHandlingAbortreevalS abort
            let ret ← endRx r.v rHeader t.doneS
            pure (ret, abort) : M (Int32 × Abort)).run w = t.afterFound r abort w := by
  rw [run_bind, run_devRead hc]
  unfold Transaction.afterFound
  cases hd : split r.v.sizeofDone w.link.ptd with
  | none => simp [found_doneCut r.v _ hd, Found.complete, Found.world]
  | some d =>
    obtain ⟨done, s⟩ := d
    simp only [readOk_ne, if_false]
    rw [run_bind, run_get]
    dsimp only
    rw [run_bind, run_rxPickPacket_found hc r.v t.doneS r.rxBuf r.bufSize hd]
    generalize r.v.found r.bufSize w.link.ptd = f
    by_cases hw : f.complete = true
    · simp only [hw, if_true, ne_eq, not_true_eq_false, if_false]
      exact run_verdict (by rw [found_connected, hw, hc]; rfl) he abort
    · simp [hw]

theorem run_reqRxSCB (t : Transaction) (r : Reception) (hc : w.link.connected = true)
    (he : Ends t (endRx r.v · t.doneS)) (ht : t.reception = some r)
    (hreq : request.run w = (.ok (), w.sent (t.message w.mem).events)) :
    (reqRxSCB r.v request t.abort t.doneS r.rxBuf r.bufSize r.devRxevalF).run w = t.proceed w := by
  refine (run_checkConnected _ _).trans ((if_pos hc).trans ?_)
  rw [run_bind, hreq]
  dsimp only
  rw [run_bind, run_getResp (by exact hc)]
  unfold Transaction.proceed
  simp only [ht, World.sent_abortF, World.sent_calls, World.sent_link, PbDevState.add_ptd]
  generalize hWd : await w.abortF w.calls t.abort w.link.ptd = W
  cases hW : W.ending with
  | cut =>
    have hne := (minus_one_ne_header.2.1 r.v).2
    simp only [Wait.header, hW, hne, if_false, run_bind, he.stops, Transaction.close]
  | refused rest =>
    have hne := (minus_one_ne_header.2.1 r.v).2
    simp only [Wait.header, hW, hne, if_false, run_bind, he.stops, Transaction.close]
  | got h rest =>
    rw [Wait.header_got hW]
    generalize hw1 : W.world (World.sent (t.message w.mem).events w) = w1
    have hc1 : w1.link.connected = true := by
      rw [← hw1, Wait.world_got hW]
      exact hc
    have hptd1 : w1.link.ptd = rest := by
      rw [← hw1, Wait.world_got hW]
      rfl
    by_cases hf : h = r.v.addressfound
    · simp only [hf, if_true]
      exact run_afterFound hc1 he W.abort
    · simp only [hf, if_false, run_bind]
      rw [he.ends h _ hc1, hptd1]
      simp only [Transaction.close, hW, hw1]
      cases finish t.endMsg t.sizeofDone h rest <;> rfl

theorem ends_tx (h : t.endMsg = msgTxEnd) (hs : t.sizeofDone = sizeof TxDone) (hr : t.endRet = 0) :
    Ends t (devHandleTxRespI · t.doneS) where
  ends h' w hc := by
    rw [devHandleTxRespI, run_handleRespI_finish hc, h, hs, hr]
  stops w := run_handleRespI_invalid minus_one_ne_header.1.1 minus_one_ne_header.2.2

theorem ends_cca (h : t.endMsg = msgCcaEnd) (hs : t.sizeofDone = sizeof CcaDone)
    (hr : t.endRet = 0) : Ends t (devHandleCcaRespI · t.doneS) where
  ends h' w hc := by
    rw [devHandleCcaRespI, run_handleRespI_finish hc, h, hs, hr]
  stops w := run_handleRespI_invalid minus_one_ne_header.1.2 minus_one_ne_header.2.2

theorem ends_rx (v : RxVersion) (h : t.endMsg = v.rxEnd) (hs : t.sizeofDone = v.sizeofDone)
    (hr : t.endRet = v.rxEnd.toInt32) : Ends t (endRx v · t.doneS) where
  ends h' w hc := by
    rw [run_endRx hc, h, hs, hr]
  stops w := by
    simp only [endRx, if_neg minus_one_ne_header.2.2, if_neg (minus_one_ne_header.2.1 v).1,
      run_invalidResp]

theorem run_putBack {m : M (Int32 × Abort)} (put : Abort → α) (abort : α → Abort)
    (h : ∀ a, abort (put a) = a) :
    (do
      let r ← (do
        let r ← m
        pure (r.1, put r.2) : M (Int32 × α))
      pure (r.1, abort r.2) : M (Int32 × Abort)).run w = m.run w := by
  rw [run_bind, run_bind]
  rcases m.run w with ⟨_ | r, w'⟩
  · rfl
  · simp [h]

theorem run_blocking_open (hc : w.link.connected = true) (t : Transaction) :
    t.blocking.run w = t.proceed w := by
  cases t with
  | tx s packet d =>
    refine (run_putBack (fun abort => { s with abort }) Tx.abort fun _ => rfl).trans ?_
    exact run_reqSCB (.tx s packet d) (ends_tx rfl rfl rfl) hc rfl (run_devReqTxI s packet)
  | txv2 s packet d =>
    refine (run_putBack (fun abort => { s with abort }) Txv2.abort fun _ => rfl).trans ?_
    exact run_reqSCB (.txv2 s packet d) (ends_tx rfl rfl rfl) hc rfl (run_devReqTxv2I s packet)
  | tx2v1 s packet d =>
    refine (run_putBack (fun abort => { s with abort }) Tx2v1.abort fun _ => rfl).trans ?_
    exact run_reqSCB (.tx2v1 s packet d) (ends_tx rfl rfl rfl) hc rfl (run_devReqTx2v1I s packet)
  | cca s d =>
    refine (run_putBack (fun abort => { s with abort }) Cca.abort fun _ => rfl).trans ?_
    exact run_reqSCB (.cca s d) (ends_cca rfl rfl rfl) hc rfl (run_sendMsg msgCcaMeas s)
  | ccav2 s d =>
    refine (run_putBack (fun abort => { s with abort }) Ccav2.abort fun _ => rfl).trans ?_
    exact run_reqSCB (.ccav2 s d) (ends_cca rfl rfl rfl) hc rfl (run_sendMsg msgCcav2Meas s)
  | rx s d buf size eval =>
    refine (run_putBack (fun abort => { s with abort }) Rx.abort fun _ => rfl).trans ?_
    exact run_reqRxSCB (.rx s d buf size eval) ⟨.v1, buf, size, eval⟩ hc (ends_rx .v1 rfl rfl rfl)
      rfl (run_sendMsg msgRx s)
  | rxv2 s phyAddr d buf size eval =>
    refine (run_putBack (fun abort => { s with abort }) Rxv2.abort fun _ => rfl).trans ?_
    exact run_reqRxSCB (.rxv2 s phyAddr d buf size eval) ⟨.v2, buf, size, eval⟩ hc
      (ends_rx .v2 rfl rfl rfl) rfl (run_sendRxAddr_rxv2 s phyAddr)
  | rx2v1 s phyAddr d buf size eval =>
    refine (run_putBack (fun abort => { s with abort }) Rx2v1.abort fun _ => rfl).trans ?_
    exact run_reqRxSCB (.rx2v1 s phyAddr d buf size eval) ⟨.v2, buf, size, eval⟩ hc
      (ends_rx .v2 rfl rfl rfl) rfl (run_sendRxAddr_rx2v1 s phyAddr)

theorem run_checkConnected_closed (hc : w.link.connected = false) (closed : α) (m : M α) :
    (checkConnected closed m).run w = (.ok closed, w) := by
  rw [run_checkConnected, if_neg (by simp [hc])]

theorem run_blocking_closed (hc : w.link.connected = false) (t : Transaction) :
    t.blocking.run w = (.ok (-1, t.abort), w) := by
  cases t with
  | tx s =>
    refine (run_putBack (fun abort => { s with abort }) Tx.abort fun _ => rfl).trans ?_
    exact run_checkConnected_closed hc _ _
  | txv2 s =>
    refine (run_putBack (fun abort => { s with abort }) Txv2.abort fun _ => rfl).trans ?_
    exact run_checkConnected_closed hc _ _
  | tx2v1 s =>
    refine (run_putBack (fun abort => { s with abort }) Tx2v1.abort fun _ => rfl).trans ?_
    exact run_checkConnected_closed hc _ _
  | cca s =>
    refine (run_putBack (fun abort => { s with abort }) Cca.abort fun _ => rfl).trans ?_
    exact run_checkConnected_closed hc _ _
  | ccav2 s =>
    refine (run_putBack (fun abort => { s with abort }) Ccav2.abort fun _ => rfl).trans ?_
    exact run_checkConnected_closed hc _ _
  | rx s =>
    refine (run_putBack (fun abort => { s with abort }) Rx.abort fun _ => rfl).trans ?_
    exact run_checkConnected_closed hc _ _
  | rxv2 s =>
    refine (run_putBack (fun abort => { s with abort }) Rxv2.abort fun _ => rfl).trans ?_
    exact run_checkConnected_closed hc _ _
  | rx2v1 s =>
    refine (run_putBack (fun abort => { s with abort }) Rx2v1.abort fun _ => rfl).trans ?_
    exact run_checkConnected_closed hc _ _

end

end PhyCom2G4
