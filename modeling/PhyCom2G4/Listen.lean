import PhyCom2G4.Answers

/-!
# What a wait without callbacks hears

Every call of the family without callbacks waits at most once, with one of
five listeners. `Listener.hear` reads off the stream which of a few things
the listener gets to hear, and `run_listen` says for each of them what the
wait returns and how it leaves the world.
-/

namespace PhyCom2G4

open Bytes Memory Program Program.Prog LibPhyCom

variable [LibPhyCom]

inductive Listener
  | tx
  | cca
  | rx (v : RxVersion)
  | rssi (rssiDoneS : Addr)
  | wait
  deriving DecidableEq

def Listener.listen : Listener → M Int32
  | .tx => devGetTxRespNc
  | .cca => devGetCcaRespNc
  | .rx v => pickRxResponse (handleRxResponses v)
  | .rssi rssiDoneS => devGetRssiRespI rssiDoneS
  | .wait => devPickWaitRespSCB

def Listener.reeval : Listener → Option OngoingTransaction
  | .tx => some .txAbortReeval
  | .cca => some .ccaAbortReeval
  | .rx _ => some .rxAbortReeval
  | .rssi _ | .wait => none

def Listener.finds (nc : DevStateNc) (h : PcHeader) : Listener → Option RxVersion
  | .rx v => if h = v.addressfound ∧ nc.weGotAddress = false then some v else none
  | _ => none

def Listener.endsWith (h : PcHeader) : Listener → Bool
  | .tx => h = msgTxEnd
  | .cca => h = msgCcaEnd
  | .rx v => h = v.rxEnd
  | .rssi _ => h = msgRssiEnd ∨ h = msgImmrssiRrsiDone
  | .wait => h = msgWaitEnd

def Listener.sizeofDone : Listener → Nat
  | .tx => sizeof TxDone
  | .cca => sizeof CcaDone
  | .rx v => v.sizeofDone
  | .rssi _ => sizeof RssiDone
  | .wait => 0

def Listener.doneS (nc : DevStateNc) : Listener → Addr
  | .tx => nc.txDoneS
  | .cca => nc.ccaDoneS
  | .rx v => v.doneS nc
  | .rssi rssiDoneS => rssiDoneS
  | .wait => 0

def Listener.endRet (h : PcHeader) : Listener → Int32
  | .rssi _ | .wait => 0
  | _ => h.toInt32

/-- What it returns when the done structure of the end comes short: the read
is tested against the wrong value in a reception. -/
def Listener.endCutRet (h : PcHeader) : Listener → Int32
  | .rx _ => h.toInt32
  | _ => -1

/-- Transactions are over, to the library, when they end or are cut off by a
header; RSSI and waits leave `ongoing` alone. -/
def Listener.clear : Listener → World → World
  | .rssi _, w | .wait, w => w
  | _, w => w.setOngoing .nothing

inductive Heard
  /-- The header comes short. -/
  | cut
  | reeval (rest : List Byte)
  | found (v : RxVersion) (f : Found)
  | disconnect (rest : List Byte)
  /-- The done structure of the end comes short: what there is of it. -/
  | endCut (h : PcHeader) (s : List Byte)
  | ended (h : PcHeader) (done rest : List Byte)
  | invalid (h : PcHeader) (rest : List Byte)
  deriving DecidableEq

def Listener.heed (l : Listener) (nc : DevStateNc) (h : PcHeader) (s : List Byte) : Heard :=
  if l.reeval.isSome ∧ h = msgAbortreeval then .reeval s
  else match l.finds nc h with
    | some v => .found v (v.found nc.bufsize s)
    | none =>
      if h = msgDisconnect then .disconnect s
      else if l.endsWith h then
        match split l.sizeofDone s with
        | some (done, rest) => .ended h done rest
        | none => .endCut h s
      else .invalid h s

def Listener.hear (l : Listener) (nc : DevStateNc) (s : List Byte) : Heard :=
  match split (sizeof PcHeader) s with
  | none => .cut
  | some (hs, s) => l.heed nc (parse hs) s

def Found.ret (v : RxVersion) : Found → Int32
  | .whole .. => v.addressfound.toInt32
  | _ => -1

def Heard.ret (l : Listener) : Heard → Except Stop Int32
  | .cut | .disconnect _ => .ok (-1)
  | .reeval _ => .ok msgAbortreeval.toInt32
  | .found v f => .ok (f.ret v)
  | .endCut h _ => .ok (l.endCutRet h)
  | .ended h _ _ => .ok (l.endRet h)
  | .invalid h _ => .error (.invalidResp h)

/-- Only a complete ADDRESSFOUND makes the device judge the packet. -/
def Found.judged : Found → World → World
  | .whole .., w => { w with nc := { w.nc with weGotAddress := true, ongoing := .rxHeaderEval } }
  | _, w => w

def World.tookDone (l : Listener) (done rest : List Byte) (w : World) : World :=
  match l with
  | .wait => w
  | _ => (w.took l.sizeofDone rest).stored (l.doneS w.nc) done

def Heard.world (l : Listener) : Heard → World → World
  | .cut, w => w.cut (sizeof PcHeader)
  | .reeval rest, w =>
    let w := w.took (sizeof PcHeader) rest
    match l.reeval with
    | some o => w.setOngoing o
    | none => w
  | .found v f, w =>
    f.judged (f.world v (v.doneS w.nc) w.nc.rxbuf w.nc.bufsize (w.took (sizeof PcHeader) []))
  | .disconnect rest, w => (l.clear (w.took (sizeof PcHeader) rest)).shut []
  | .endCut _ s, w =>
    ((l.clear (w.took (sizeof PcHeader) s)).cut l.sizeofDone).stored (l.doneS w.nc)
      (leftover l.sizeofDone s)
  | .ended _ done rest, w =>
    (l.clear (w.took (sizeof PcHeader) (done ++ rest))).tookDone l done rest
  | .invalid _ rest, w =>
    match l with
    | .rx _ => w.took (sizeof PcHeader) rest
    | _ => l.clear (w.took (sizeof PcHeader) rest)

-- ---------------------------------------------------------------------------
-- Each listener hears what `hear` says
-- ---------------------------------------------------------------------------

section
variable {w : World}

@[simp] theorem clear_link (l : Listener) : (l.clear w).link = w.link := by
  cases l <;> rfl

@[simp] theorem clear_mem (l : Listener) : (l.clear w).mem = w.mem := by
  cases l <;> rfl

@[simp] theorem judged_link (f : Found) : (f.judged w).link = w.link := by
  cases f <;> rfl

@[simp] theorem doneS_setOngoing (v : RxVersion) (o : OngoingTransaction) :
    v.doneS (w.setOngoing o).nc = v.doneS w.nc := by
  cases v <;> rfl

@[simp] theorem doneS_clear (l l' : Listener) :
    l'.doneS (l.clear w).nc = l'.doneS w.nc := by
  cases l <;> cases l' <;> first | rfl | exact doneS_setOngoing _ _

theorem tookDone_clear {l : Listener} (hl : l ≠ .wait) (done rest : List Byte) :
    (l.clear w).tookDone l done rest =
      ((l.clear w).took l.sizeofDone rest).stored (l.doneS w.nc) done := by
  rw [← doneS_clear l l]
  cases l with
  | wait => exact absurd rfl hl
  | _ => rfl

theorem run_getRespNc (hc : w.link.connected = true) (reeval : OngoingTransaction)
    (doneS : DevStateNc → Addr) (endMsg : PcHeader) (size : Nat) :
    (getRespNc reeval doneS (handleRespI endMsg size)).run w =
      match split (sizeof PcHeader) w.link.ptd with
      | none => (.ok (-1), w.cut (sizeof PcHeader))
      | some (hs, s) =>
        let h : PcHeader := parse hs
        let w := w.took (sizeof PcHeader) s
        if h = msgAbortreeval then (.ok h.toInt32, w.setOngoing reeval)
        else
          let w := w.setOngoing .nothing
          if h = endMsg then match split size s with
            | some (done, rest) => (.ok h.toInt32, (w.took size rest).stored (doneS w.nc) done)
            | none => (.ok (-1), (w.cut size).stored (doneS w.nc) (leftover size s))
          else if h = msgDisconnect then (.ok (-1), w.shut [])
          else (.error (.invalidResp h), w) := by
  simp only [getRespNc, run_bind, run_devReadHeader hc]
  cases split (sizeof PcHeader) w.link.ptd with
  | none => simp
  | some r =>
    obtain ⟨hs, s⟩ := r
    simp only [readOk_ne, if_false, run_ite, run_bind, run_setOngoing, run_pure, run_get]
    split
    next => rfl
    next =>
      rw [run_handleRespI (by exact hc)]
      by_cases hend : parse hs = endMsg
      · cases hd : split size s <;> simp [hend, hd]
      · simp only [if_neg hend]
        by_cases hdis : parse hs = msgDisconnect <;> simp [hdis]

theorem run_handleRxResponses (hc : w.link.connected = true) (v : RxVersion) (h : PcHeader) :
    (handleRxResponses v h).run w =
      if h = msgAbortreeval then (.ok h.toInt32, w.setOngoing .rxAbortReeval)
      else if h = v.addressfound ∧ w.nc.weGotAddress = false then
        let f := v.found w.nc.bufsize w.link.ptd
        (.ok (f.ret v), f.judged (f.world v (v.doneS w.nc) w.nc.rxbuf w.nc.bufsize w))
      else if h = msgDisconnect then (.ok (-1), (w.setOngoing .nothing).shut [])
      else if h = v.rxEnd then match split v.sizeofDone w.link.ptd with
        | some (done, rest) =>
          (.ok h.toInt32,
            ((w.setOngoing .nothing).took v.sizeofDone rest).stored (v.doneS w.nc) done)
        | none => (.ok h.toInt32, ((w.setOngoing .nothing).cut v.sizeofDone).stored (v.doneS w.nc)
            (leftover v.sizeofDone w.link.ptd))
      else (.error (.invalidResp h), w) := by
  unfold handleRxResponses
  simp only [run_bind, run_get, run_ite, run_setOngoing, run_pure, run_invalidResp, run_modifyNc]
  split
  next => rfl
  split
  next hf =>
    rw [run_devRead hc]
    cases hd : split v.sizeofDone w.link.ptd with
    | none => simp [found_doneCut v _ hd, Found.ret, Found.judged, Found.world]
    | some r =>
      obtain ⟨done, s⟩ := r
      simp only [readOk_ne, if_false, hf.1, World.stored_nc, World.took_nc]
      rw [run_rxPickPacket_found hc v _ _ _ hd]
      cases v.found w.nc.bufsize w.link.ptd <;> rfl
  split
  next => rw [run_devCleanUp (by exact hc)]
  split
  next =>
    rw [run_devRead (by exact hc)]
    have hok : readOk v.sizeofDone ≠ 1 :=
      readOk_ne_one _ (Nat.ne_of_gt (one_lt_sizeofDone v))
    cases hd : split v.sizeofDone w.link.ptd <;> simp [hd, hok]
  next => rfl

theorem run_devGetRssiRespI_ite (hc : w.link.connected = true) (rssiDoneS : Addr) :
    (devGetRssiRespI rssiDoneS).run w =
      match split (sizeof PcHeader) w.link.ptd with
      | none => (.ok (-1), w.cut (sizeof PcHeader))
      | some (hs, s) =>
        let h : PcHeader := parse hs
        let w := w.took (sizeof PcHeader) s
        if h = msgDisconnect then (.ok (-1), w.shut [])
        else if h = msgRssiEnd ∨ h = msgImmrssiRrsiDone then match split (sizeof RssiDone) s with
          | some (done, rest) => (.ok 0, (w.took (sizeof RssiDone) rest).stored rssiDoneS done)
          | none =>
            (.ok (-1), (w.cut (sizeof RssiDone)).stored rssiDoneS (leftover (sizeof RssiDone) s))
        else (.error (.invalidResp h), w) := by
  simp only [devGetRssiRespI, run_bind, run_devReadHeader hc]
  cases split (sizeof PcHeader) w.link.ptd with
  | none => simp
  | some r =>
    obtain ⟨hs, s⟩ := r
    simp only [readOk_ne, if_false, run_ite, run_bind, run_pure, run_invalidResp]
    rw [run_devCleanUp (by exact hc), run_devRead (by exact hc)]
    cases hd : split (sizeof RssiDone) s <;> simp [hd, readOk_ne]

def Heard.outcome (heard : Heard) (l : Listener) (w : World) : Except Stop Int32 × World :=
  (heard.ret l, heard.world l w)

attribute [local simp] Listener.heed Listener.reeval Listener.finds Listener.endsWith
  Listener.sizeofDone Listener.doneS Listener.endRet Listener.endCutRet Listener.clear
  Heard.outcome Heard.ret Heard.world World.tookDone

theorem run_devGetTxRespNc (hc : w.link.connected = true) :
    devGetTxRespNc.run w = (Listener.tx.hear w.nc w.link.ptd).outcome .tx w := by
  refine (run_getRespNc hc _ _ msgTxEnd (sizeof TxDone)).trans ?_
  unfold Listener.hear
  cases split (sizeof PcHeader) w.link.ptd with
  | none => rfl
  | some r =>
    dsimp only
    generalize (parse r.1 : PcHeader) = h
    by_cases h1 : h = msgAbortreeval
    · simp [h1]
    by_cases h2 : h = msgTxEnd
    · subst h2
      cases hd : split (sizeof TxDone) r.2 with
      | none => simp [hd, h1]
      | some d =>
        simp [hd, h1]
        rfl
    by_cases h3 : h = msgDisconnect
    · simp [h3, Ne.symm abortreeval_ne_disconnect, Ne.symm txEnd_ne_disconnect]
    · simp [h1, h2, h3]

theorem run_devGetCcaRespNc (hc : w.link.connected = true) :
    devGetCcaRespNc.run w = (Listener.cca.hear w.nc w.link.ptd).outcome .cca w := by
  refine (run_getRespNc hc _ _ msgCcaEnd (sizeof CcaDone)).trans ?_
  unfold Listener.hear
  cases split (sizeof PcHeader) w.link.ptd with
  | none => rfl
  | some r =>
    dsimp only
    generalize (parse r.1 : PcHeader) = h
    by_cases h1 : h = msgAbortreeval
    · simp [h1]
    by_cases h2 : h = msgCcaEnd
    · subst h2
      cases hd : split (sizeof CcaDone) r.2 with
      | none => simp [hd, h1]
      | some d =>
        simp [hd, h1]
        rfl
    by_cases h3 : h = msgDisconnect
    · simp [h3, Ne.symm abortreeval_ne_disconnect, Ne.symm ccaEnd_ne_disconnect]
    · simp [h1, h2, h3]

theorem run_pickRxResponse (hc : w.link.connected = true) (v : RxVersion) :
    (pickRxResponse (handleRxResponses v)).run w =
      ((Listener.rx v).hear w.nc w.link.ptd).outcome (.rx v) w := by
  simp only [pickRxResponse, run_bind, run_devReadHeader hc]
  unfold Listener.hear
  cases split (sizeof PcHeader) w.link.ptd with
  | none => simp
  | some r =>
    dsimp only
    simp only [readOk_ne, if_false]
    rw [run_handleRxResponses (by exact hc)]
    generalize (parse r.1 : PcHeader) = h
    by_cases h1 : h = msgAbortreeval
    · simp [h1]
    by_cases h2 : h = v.addressfound ∧ w.nc.weGotAddress = false
    · simp [h2, Found.world_took _ _ _ _ _ _ r.2 []]
    by_cases h3 : h = msgDisconnect
    · simp [h3, Ne.symm abortreeval_ne_disconnect, Ne.symm (addressfound_ne_disconnect v)]
    by_cases h4 : h = v.rxEnd
    · cases hd : split v.sizeofDone r.2 with
      | none => simp [hd, h4]
      | some d =>
        simp [hd, h4]
        rfl
    · simp [h1, h2, h3, h4]

theorem run_devGetRssiRespI (hc : w.link.connected = true) (rssiDoneS : Addr) :
    (devGetRssiRespI rssiDoneS).run w =
      ((Listener.rssi rssiDoneS).hear w.nc w.link.ptd).outcome (.rssi rssiDoneS) w := by
  rw [run_devGetRssiRespI_ite hc]
  unfold Listener.hear
  cases split (sizeof PcHeader) w.link.ptd with
  | none => rfl
  | some r =>
    dsimp only
    generalize (parse r.1 : PcHeader) = h
    by_cases h1 : h = msgDisconnect
    · simp [h1]
    by_cases h2 : h = msgRssiEnd ∨ h = msgImmrssiRrsiDone
    · cases hd : split (sizeof RssiDone) r.2 with
      | none => simp [hd, h1, h2]
      | some d =>
        simp [hd, h1, h2]
        rfl
    · simp [h1, h2]

theorem run_devPickWaitRespSCB (hc : w.link.connected = true) :
    devPickWaitRespSCB.run w = (Listener.wait.hear w.nc w.link.ptd).outcome .wait w := by
  simp only [devPickWaitRespSCB, run_attempt, pbDevPickWaitResp_open _ hc]
  unfold Listener.hear
  rw [show sizeof PcHeader = 4 from rfl]
  cases split 4 w.link.ptd with
  | none => rfl
  | some r =>
    dsimp only
    generalize (parse r.1 : PcHeader) = h
    by_cases h1 : h = msgDisconnect
    · simp [h1]
      rfl
    by_cases h2 : h = msgWaitEnd
    · simp [h2]
      rfl
    · simp [h1, h2]
      rfl

theorem run_listen (hc : w.link.connected = true) (l : Listener) :
    l.listen.run w = (l.hear w.nc w.link.ptd).outcome l w := by
  cases l with
  | tx => exact run_devGetTxRespNc hc
  | cca => exact run_devGetCcaRespNc hc
  | rx v => exact run_pickRxResponse hc v
  | rssi rssiDoneS => exact run_devGetRssiRespI hc rssiDoneS
  | wait => exact run_devPickWaitRespSCB hc

end

end PhyCom2G4
