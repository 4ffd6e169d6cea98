import PhyCom2G4.Lib.Regions
import PhyCom2G4.Types

/-!
# What the library runs on

A `World` is all that a call of the library reads or changes: the link, the
state the device owns, the memory its pointers point into and the record of
the callbacks made. The calls to the libraries below are steps on it.
-/

namespace PhyCom2G4

open Bytes Memory Program Program.Prog LibPhyCom

/-- `p2G4_t_ongoing_transaction_t` -/
inductive OngoingTransaction
  | nothing
  | txAbortReeval
  | rxAbortReeval
  | rxHeaderEval
  | ccaAbortReeval
  deriving DecidableEq, Repr

/-- `p2G4_dev_state_nc_t` but for its `pb_dev_state`. -/
structure DevStateNc where
  ongoing : OngoingTransaction
  txDoneS : Addr
  rxDoneS : Addr
  rxv2DoneS : Addr
  ccaDoneS : Addr
  rxbuf : Addr
  bufsize : Nat
  weGotAddress : Bool
  deriving DecidableEq, Repr

variable [LibPhyCom]

/-- A call of one of the device's callbacks: what it was given and what it
returned. A done structure is given by its bytes, a packet by the
`packet_size` bytes its buffer holds. -/
inductive Callback
  | abortReeval (abort : Abort) (ret : Int32)
  | rxEval (done packet : List Byte) (ret : Int32)

/-- A `dev_abort_reeval_f`: what it returns for an abort structure, and leaves
in it, may depend on all the callbacks made before. -/
abbrev DevAbortReevalF := List Callback → Abort → Int32 × Abort

abbrev DeviceEvalRxF := List Callback → List Byte → List Byte → Int32

/-- The link is the `pb_dev_state` of the device's `p2G4_dev_state_nc_t`, whose
other fields are `nc`, or of its `p2G4_dev_state_s_t`, whose other field is
`abortF`. `ptr` has the `uint8_t *` variables a `uint8_t **` points to. -/
structure World where
  link : PbDevState
  nc : DevStateNc
  abortF : Option DevAbortReevalF
  mem : Mem
  ptr : Addr → Addr
  heap : List Block
  calls : List Callback

abbrev M := Prog Stop World

def World.start (ptd : List Byte) : World where
  link := ⟨true, ptd, []⟩
  nc := ⟨.nothing, 0, 0, 0, 0, 0, 0, false⟩
  abortF := none
  mem _ := 0
  ptr _ := 0
  heap := []
  calls := []

-- ---------------------------------------------------------------------------
-- Changes of a world
-- ---------------------------------------------------------------------------

@[simps -fullyApplied]
def World.took (n : Nat) (rest : List Byte) (w : World) : World :=
  { w with link := { w.link with ptd := rest, log := w.link.log ++ [.read n] } }

@[simps -fullyApplied]
def World.cut (n : Nat) (w : World) : World :=
  { w with link := { w.link with ptd := [] }.shut [.read n] }

@[simps -fullyApplied]
def World.stored (p : Addr) (bs : List Byte) (w : World) : World :=
  { w with mem := store w.mem p bs }

@[simps -fullyApplied]
def World.sent (events : List Event) (w : World) : World := { w with link := w.link.add events }

@[simps -fullyApplied]
def World.shut (events : List Event) (w : World) : World := { w with link := w.link.shut events }

@[simps -fullyApplied]
def World.malloced (p : Addr) (n : Nat) (w : World) : World :=
  { w with
    ptr := fun q => if q = p then bsMalloc w.heap n else w.ptr q
    heap := (bsMalloc w.heap n, n) :: w.heap }

@[simps -fullyApplied]
def World.setOngoing (o : OngoingTransaction) (w : World) : World :=
  { w with nc := { w.nc with ongoing := o } }

def World.store (w : World) : Regions.Store := ⟨w.mem, w.ptr, w.heap⟩

section
variable (w : World)

@[simp] theorem took_store (n : Nat) (rest : List Byte) : (w.took n rest).store = w.store := rfl

@[simp] theorem stored_store (p : Addr) (bs : List Byte) :
    (w.stored p bs).store = w.store.write p bs := rfl

@[simp] theorem sent_store (es : List Event) : (w.sent es).store = w.store := rfl

@[simp] theorem shut_store (es : List Event) : (w.shut es).store = w.store := rfl

end

-- ---------------------------------------------------------------------------
-- Steps
-- ---------------------------------------------------------------------------

/-- `CHECK_CONNECTED`: a call on a closed link returns at once. -/
def checkConnected (closed : α) (m : M α) : M α := do
  if (← get).link.connected then m else pure closed

/-- `bs_trace_error_line` and `bs_trace_error_time_line` -/
def traceError (text : String) : M α := stop (.error text)

def invalidResp (header : PcHeader) : M α := stop (.invalidResp header)

def devRead (p : Addr) (n : Nat) : M Int32 := act fun w =>
  let r := pbDevRead n w.link
  (r.1, { w with link := r.2.2, mem := store w.mem p r.2.1 })

/-- `pb_dev_read` of a header, into a local variable. -/
def devReadHeader : M (Int32 × PcHeader) := act fun w =>
  let r := pbDevRead (sizeof PcHeader) w.link
  ((r.1, parse r.2.1), { w with link := r.2.2 })

def devCleanUp : M Unit := modify fun w => { w with link := pbDevCleanUp w.link }

def devDisconnect : M Unit := modify fun w => { w with link := pbDevDisconnect w.link }

def devTerminate : M Unit := modify fun w => { w with link := pbDevTerminate w.link }

def sendMsg [Packed α] (header : PcHeader) (s : α) : M Unit :=
  modify fun w => { w with link := pbSendMsg header (bytes s) w.link }

def sendPayload (buf : Addr) (size : Nat) : M Unit :=
  modify fun w => { w with link := pbSendPayload (load w.mem buf size) w.link }

def writeDtp (bs : List Byte) : M Unit := modify (World.sent [.raw bs])

def writeDtpFrom (p : Addr) (n : Nat) : M Unit :=
  modify fun w => w.sent [.raw (load w.mem p n)]

def mallocTo (p : Addr) (n : Nat) : M Unit := modify (World.malloced p n)

def modifyNc (f : DevStateNc → DevStateNc) : M Unit := modify fun w => { w with nc := f w.nc }

def setOngoing (o : OngoingTransaction) : M Unit := modify (World.setOngoing o)

-- ---------------------------------------------------------------------------
-- What the steps do
-- ---------------------------------------------------------------------------

section
variable {w : World}

theorem run_checkConnected (closed : α) (m : M α) :
    (checkConnected closed m).run w = if w.link.connected then m.run w else (.ok closed, w) := by
  simp only [checkConnected, run_bind, run_get, run_ite, run_pure]

@[simp] theorem sent_sent (es es' : List Event) : (w.sent es).sent es' = w.sent (es ++ es') := by
  simp [World.sent, PbDevState.add]

@[simp] theorem run_traceError (text : String) :
    (traceError text : M α).run w = (.error (.error text), w) := rfl

@[simp] theorem run_invalidResp (header : PcHeader) :
    (invalidResp header : M α).run w = (.error (.invalidResp header), w) := rfl

theorem pbDevRead_eq {l : PbDevState} (hc : l.connected = true) (n : Nat) :
    pbDevRead n l = match split n l.ptd with
      | some (bs, rest) => (readOk n, bs, { l with ptd := rest, log := l.log ++ [.read n] })
      | none => (-1, leftover n l.ptd, { l with ptd := [] }.shut [.read n]) := by
  cases h : split n l.ptd with
  | none => exact pbDevRead_short _ _ hc (split_eq_none.mp h)
  | some r =>
    obtain ⟨bs, rest⟩ := r
    obtain ⟨hs, hl⟩ := split_eq_some.mp h
    have hn : n ≤ l.ptd.length := by rw [hs]; simp [hl]
    rw [pbDevRead_full _ _ hc hn, hs, List.take_left' hl, List.drop_left' hl]

theorem run_devRead (hc : w.link.connected = true) (p : Addr) (n : Nat) :
    (devRead p n).run w = match split n w.link.ptd with
      | some (bs, rest) => (.ok (readOk n), (w.took n rest).stored p bs)
      | none => (.ok (-1), (w.cut n).stored p (leftover n w.link.ptd)) := by
  simp only [devRead, run_act, pbDevRead_eq hc]
  cases split n w.link.ptd <;> rfl

theorem run_devReadHeader (hc : w.link.connected = true) :
    devReadHeader.run w = match split (sizeof PcHeader) w.link.ptd with
      | some (bs, rest) => (.ok (readOk (sizeof PcHeader), parse bs), w.took (sizeof PcHeader) rest)
      | none =>
        (.ok (-1, parse (leftover (sizeof PcHeader) w.link.ptd)), w.cut (sizeof PcHeader)) := by
  simp only [devReadHeader, run_act, pbDevRead_eq hc]
  cases split (sizeof PcHeader) w.link.ptd <;> rfl

theorem run_devCleanUp (hc : w.link.connected = true) : devCleanUp.run w = (.ok (), w.shut []) := by
  simp only [devCleanUp, run_modify, pbDevCleanUp_eq _ hc]
  rfl

theorem run_devDisconnect (hc : w.link.connected = true) :
    devDisconnect.run w = (.ok (), w.shut [.msg msgDisconnect []]) := by
  simp only [devDisconnect, run_modify, pbDevDisconnect_open _ hc]
  rfl

theorem run_devDisconnect_closed (hc : w.link.connected = false) :
    devDisconnect.run w = (.ok (), w) := by
  simp only [devDisconnect, run_modify, pbDevDisconnect_closed _ hc]

theorem run_devTerminate (hc : w.link.connected = true) :
    devTerminate.run w = (.ok (), w.shut [.msg msgTerminate []]) := by
  simp only [devTerminate, run_modify, pbDevTerminate_open _ hc]
  rfl

theorem run_devTerminate_closed (hc : w.link.connected = false) :
    devTerminate.run w = (.ok (), w) := by
  simp only [devTerminate, run_modify, pbDevTerminate_closed _ hc]

@[simp] theorem run_sendMsg [Packed α] (header : PcHeader) (s : α) :
    (sendMsg header s).run w = (.ok (), w.sent [.msg header (bytes s)]) := by
  simp only [sendMsg, run_modify, pbSendMsg_eq]
  rfl

def payloadEvents (bs : List Byte) : List Event := if bs = [] then [] else [.raw bs]

@[simp] theorem run_sendPayload (buf : Addr) (size : Nat) :
    (sendPayload buf size).run w = (.ok (), w.sent (payloadEvents (load w.mem buf size))) := by
  simp only [sendPayload, run_modify]
  cases load w.mem buf size with
  | nil =>
    rw [pbSendPayload_nil]
    simp [payloadEvents, World.sent, PbDevState.add]
  | cons b bs =>
    rw [pbSendPayload_cons]
    rfl

@[simp] theorem run_writeDtp (bs : List Byte) :
    (writeDtp bs).run w = (.ok (), w.sent [.raw bs]) := rfl

@[simp] theorem run_writeDtpFrom (p : Addr) (n : Nat) :
    (writeDtpFrom p n).run w = (.ok (), w.sent [.raw (load w.mem p n)]) := rfl

@[simp] theorem run_mallocTo (p : Addr) (n : Nat) :
    (mallocTo p n).run w = (.ok (), w.malloced p n) := rfl

@[simp] theorem run_setOngoing (o : OngoingTransaction) :
    (setOngoing o).run w = (.ok (), w.setOngoing o) := rfl

@[simp] theorem run_modifyNc (f : DevStateNc → DevStateNc) :
    (modifyNc f).run w = (.ok (), { w with nc := f w.nc }) := rfl

end

end PhyCom2G4
