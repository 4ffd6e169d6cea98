import PhyCom2G4.Lib.Runs
import PhyCom2G4.Phy

/-!
# A device and its phy

`Sys` is a device of the family without callbacks together with the phy. A
`Move` is a call of the library, with what the phy answers to it, or anything
else the device may do; the phy hears what is really written, and its answer
is read by the same call.
-/

namespace PhyCom2G4

open Bytes Memory Wire Program Program.Prog Runs LibPhyCom

variable [LibPhyCom]

-- ---------------------------------------------------------------------------
-- Requests
-- ---------------------------------------------------------------------------

def NcReq.opens : NcReq → Option Kind
  | .tx .. | .txv2 .. | .tx2v1 .. => some .tx
  | .cca .. | .ccav2 .. => some .cca
  | .rx .. => some (.rx .v1 false)
  | .rxv2 .. | .rx2v1 .. => some (.rx .v2 false)
  | _ => none

def NcReq.doneS : NcReq → Option Addr
  | .tx _ _ d | .txv2 _ _ d | .tx2v1 _ _ d | .cca _ d | .ccav2 _ d => some d
  | .rx _ d _ _ | .rxv2 _ _ d _ _ | .rx2v1 _ _ d _ _ => some d
  | .immRSSI _ d | .rssi _ d | .rssiv2 _ d => some d
  | _ => none

def NcReq.buffer : NcReq → Option (Addr × Nat)
  | .rx _ _ rxBuf bufSize | .rxv2 _ _ _ rxBuf bufSize | .rx2v1 _ _ _ rxBuf bufSize =>
    some (rxBuf, bufSize)
  | _ => none

def NcReq.Speaks (c : NcReq) (w : World) : Prop :=
  w.link.connected = true ∧ c.passes w.nc = true

instance (c : NcReq) (w : World) : Decidable (c.Speaks w) := inferInstanceAs (Decidable (_ ∧ _))

-- ---------------------------------------------------------------------------
-- The system
-- ---------------------------------------------------------------------------

inductive Turn
  | free
  | reeval (l : Listener)
  | verdict (v : RxVersion)
  | over
  deriving DecidableEq

def Turn.next (c : NcReq) (ret : Int32) (t : Turn) : Turn :=
  if ret = -1 then .over
  else match c.listener with
    | some (.rx v) =>
      if ret = msgAbortreeval.toInt32 then .reeval (.rx v)
      else if ret = v.addressfound.toInt32 then .verdict v
      else .free
    | some (.rssi _) | some .wait => t
    | some l => if ret = msgAbortreeval.toInt32 then .reeval l else .free
    | none => .free

structure Sys where
  world : World
  phy : Phy
  /-- Why the device's program stopped, if it did. -/
  stop : Option Stop
  turn : Turn
  /-- The last request of the session to open a transaction. -/
  opened : Option NcReq

inductive Move
  | call (c : NcReq) (answer : Option PhyMsg)
  | disconnect
  | terminate
  | initComSNc (d : UInt32) (s p : String)
  | initcomNc (d : UInt32) (s p : String)
  | device (mem : Mem) (ptr : Addr → Addr) (heap : List Block)

@[simps -fullyApplied]
def World.fed (answer : Option PhyMsg) (w : World) : World :=
  { w with link := { w.link with ptd := w.link.ptd ++ answer.elim [] PhyMsg.write } }

def Phy.reply (answer : Option PhyMsg) (p : Phy) : Phy :=
  match answer with
  | some m => (p.answer m).getD .fault
  | none => p

/-- The phy answers the first message of a call; a stream that it cannot read it
does not accept. -/
def Phy.hear (answer : Option PhyMsg) (p : Phy) : Option (List DevMsg) → Phy
  | none => .fault
  | some [] => p
  | some (m :: ms) => ms.foldl Phy.recv ((p.recv m).reply answer)

def Sys.call (c : NcReq) (answer : Option PhyMsg) (s : Sys) : Sys :=
  let w := s.world.fed answer
  let r := c.exec.run w
  { world := r.2
    phy := s.phy.hear answer (devCodec.readAll (w.wrote r.2))
    stop := match r.1 with
      | .ok _ => none
      | .error stop => some stop
    turn := match r.1 with
      | .ok ret => s.turn.next c ret
      | .error _ => s.turn
    opened := if c.opens.isSome ∧ c.Speaks s.world then some c else s.opened }

/-- The call takes the answer, and stores it where it is told to. -/
def NcReq.Takes (c : NcReq) (m : PhyMsg) (doneS rxBuf : Addr) (bufSize : Nat) (s : Sys) : Prop :=
  let r := c.exec.run (s.world.fed (some m))
  r.1 = .ok (m.ret bufSize) ∧ r.2.store = m.stored bufSize doneS rxBuf s.world.store

def Sys.leave (m : M Unit) (s : Sys) : Sys :=
  { s with
    world := (m.run s.world).2
    phy := s.phy.hear none (devCodec.readAll (s.world.wrote (m.run s.world).2))
    turn := .over }

def Sys.initCom (m : M Int32) (d : UInt32) (s p : String) (σ : Sys) : Sys :=
  if (pbDevInitCom d s p σ.world.link).1 = 0 then
    { σ with world := (m.run σ.world).2, phy := .idle, turn := .free, opened := none }
  else { σ with world := (m.run σ.world).2 }

/-- A program that stopped does nothing more. -/
def Move.exec (m : Move) (s : Sys) : Sys :=
  if s.stop.isSome then s
  else match m with
    | .call c answer => s.call c answer
    | .disconnect => s.leave devDisconnectSNc
    | .terminate => s.leave devTerminateSNc
    | .initComSNc d n p => s.initCom (devInitComSNc d n p) d n p
    | .initcomNc d n p => s.initCom (devInitcomNc d n p) d n p
    | .device mem ptr heap => { s with world := { s.world with mem, ptr, heap } }

/-- The phy answers when it owes an answer and only then, as the diagrams allow. -/
def Phy.Follows (answer : Option PhyMsg) (p : Phy) : Prop :=
  match answer with
  | some m => (p.answer m).isSome
  | none => p.owes = false

/-- The phy follows the diagrams; a session is opened when there is none, or
opened afresh. -/
def Move.Proper (m : Move) (s : Sys) : Prop :=
  s.stop = none → match m with
    | .call c answer =>
      if c.Speaks s.world then (s.phy.recv (c.message s.world.mem)).Follows answer
      else answer = none
    | .initComSNc d n p | .initcomNc d n p =>
      s.world.link.connected = false ∨ (pbDevInitCom d n p s.world.link).1 = 0
    | _ => True

end PhyCom2G4
