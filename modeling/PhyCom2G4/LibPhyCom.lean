import Mathlib.Tactic.Simps.Basic
import PhyCom2G4.Lib.Program
import PhyCom2G4.Lib.Bytes
import PhyCom2G4.Lib.Memory

/-!
# The libraries below

libPhyComv1 (`bs_pc_base.h`) keeps the low level link to the phy and
libUtilv1 gives the time type, `bs_malloc` and the tracing functions. Neither
is part of this repository, so both are parameters here: `LibPhyCom` has
their types, constants and functions, and as laws only what the functions of
this repository rely on.
-/

namespace PhyCom2G4

open Bytes Memory

/-- `pc_header_t`, unsigned on 32 bits. -/
abbrev PcHeader := UInt32

/-- What happens on the two FIFOs of a session, in order. `msg` and `raw` are
writes to the phy, `read` is an attempt to read that many bytes from it, and
`closed` is the moment the link is closed. -/
inductive Event
  | msg (header : PcHeader) (body : List Byte)
  | raw (bytes : List Byte)
  | read (size : Nat)
  | closed
  deriving DecidableEq, Repr

def Event.written : Event → List Byte
  | .msg header body => bytes header ++ body
  | .raw bs => bs
  | .read _ | .closed => []

def Event.asked : Event → Nat
  | .read n => n
  | _ => 0

/-- `pb_dev_state_t` with its FIFOs: `ptd` holds the bytes that the phy to
device FIFO still delivers before it is cut, `log` what was done in the
session so far. -/
structure PbDevState where
  connected : Bool
  ptd : List Byte
  log : List Event
  deriving DecidableEq, Repr

/-- Why the program stopped: `bs_trace_error*` with its text, or `INVALID_RESP`
with the header it was given. -/
inductive Stop
  | error (text : String)
  | invalidResp (header : PcHeader)
  deriving DecidableEq, Repr

abbrev Block := Nat × Nat

@[simps -fullyApplied]
def PbDevState.add (events : List Event) (l : PbDevState) : PbDevState :=
  { l with log := l.log ++ events }

@[simps -fullyApplied]
def PbDevState.shut (events : List Event) (l : PbDevState) : PbDevState :=
  { connected := false, ptd := l.ptd, log := l.log ++ events ++ [.closed] }

/-- The headers of `bs_pc_2G4_types.h`, which those of the base library must
not collide with, and the value -1 has as a header. -/
def headers2G4 : List PcHeader :=
  [0x02, 0x11, 0x12, 0x13, 0x14, 0x15, 0x16, 0x17, 0x18, 0x22, 0x23, 0x31, 0x32, 0x33, 0x34,
    0x100, 0x101, 0x102, 0x103, 0x104, 0x112, 0x113, 0x114, -1]

class LibPhyCom where
  BsTime : Type
  packedTime : Packed BsTime
  timeNever : BsTime
  PbWait : Type
  packedWait : Packed PbWait
  msgDisconnect : PcHeader
  msgTerminate : PcHeader
  msgWait : PcHeader
  msgWaitEnd : PcHeader
  pbDevRead : Nat → PbDevState → Int32 × List Byte × PbDevState
  pbDevCleanUp : PbDevState → PbDevState
  pbDevDisconnect : PbDevState → PbDevState
  pbDevTerminate : PbDevState → PbDevState
  pbSendMsg : PcHeader → List Byte → PbDevState → PbDevState
  pbSendPayload : List Byte → PbDevState → PbDevState
  pbDevInitCom : UInt32 → String → String → PbDevState → Int32 × PbDevState
  pbDevRequestWaitNonblock : PbWait → PbDevState → Int32 × PbDevState
  pbDevPickWaitResp : PbDevState → Except Stop Int32 × PbDevState
  pbDevRequestWaitBlock : PbWait → PbDevState → Except Stop Int32 × PbDevState
  bsMalloc : List Block → Nat → Addr
  /-- What a full `pb_dev_read` of so many bytes returns. -/
  readOk : Nat → Int32
  /-- What a short `pb_dev_read` leaves in its destination. -/
  leftover : Nat → List Byte → List Byte
  msgDisconnect_new : msgDisconnect ∉ headers2G4
  msgTerminate_new : msgTerminate ∉ msgDisconnect :: headers2G4
  msgWait_new : msgWait ∉ msgDisconnect :: msgTerminate :: headers2G4
  msgWaitEnd_new : msgWaitEnd ∉ msgDisconnect :: headers2G4
  readOk_ne (n : Nat) : readOk n ≠ -1
  readOk_ne_one (n : Nat) (h : n ≠ 1) : readOk n ≠ 1
  length_leftover (n : Nat) (s : List Byte) : (leftover n s).length ≤ n
  pbDevRead_full (l : PbDevState) (n : Nat) (hc : l.connected = true) (hn : n ≤ l.ptd.length) :
    pbDevRead n l =
      (readOk n, l.ptd.take n, { l with ptd := l.ptd.drop n, log := l.log ++ [.read n] })
  pbDevRead_short (l : PbDevState) (n : Nat) (hc : l.connected = true) (hn : l.ptd.length < n) :
    pbDevRead n l = (-1, leftover n l.ptd, { l with ptd := [] }.shut [.read n])
  pbDevCleanUp_eq (l : PbDevState) (hc : l.connected = true) : pbDevCleanUp l = l.shut []
  pbDevDisconnect_open (l : PbDevState) (hc : l.connected = true) :
    pbDevDisconnect l = l.shut [.msg msgDisconnect []]
  pbDevDisconnect_closed (l : PbDevState) (hc : l.connected = false) : pbDevDisconnect l = l
  pbDevTerminate_open (l : PbDevState) (hc : l.connected = true) :
    pbDevTerminate l = l.shut [.msg msgTerminate []]
  pbDevTerminate_closed (l : PbDevState) (hc : l.connected = false) : pbDevTerminate l = l
  pbSendMsg_eq (l : PbDevState) (header : PcHeader) (body : List Byte) :
    pbSendMsg header body l = l.add [.msg header body]
  pbSendPayload_nil (l : PbDevState) : pbSendPayload [] l = l
  pbSendPayload_cons (l : PbDevState) (b : Byte) (bs : List Byte) :
    pbSendPayload (b :: bs) l = l.add [.raw (b :: bs)]
  /-- A session starts with both FIFOs empty. -/
  pbDevInitCom_ok (l : PbDevState) (d : UInt32) (s p : String)
    (h : (pbDevInitCom d s p l).1 = 0) : (pbDevInitCom d s p l).2 = ⟨true, [], []⟩
  pbDevInitCom_fail (l : PbDevState) (d : UInt32) (s p : String)
    (h : (pbDevInitCom d s p l).1 ≠ 0) (hc : l.connected = false) : (pbDevInitCom d s p l).2 = l
  pbDevRequestWaitNonblock_open (l : PbDevState) (w : PbWait) (hc : l.connected = true) :
    pbDevRequestWaitNonblock w l = (0, l.add [.msg msgWait (bytes w)])
  pbDevRequestWaitNonblock_closed (l : PbDevState) (w : PbWait) (hc : l.connected = false) :
    pbDevRequestWaitNonblock w l = (-1, l)
  pbDevPickWaitResp_closed (l : PbDevState) (hc : l.connected = false) :
    pbDevPickWaitResp l = (.ok (-1), l)
  pbDevPickWaitResp_open (l : PbDevState) (hc : l.connected = true) :
    pbDevPickWaitResp l = match split 4 l.ptd with
      | none => (.ok (-1), { l with ptd := [] }.shut [.read 4])
      | some (h, rest) =>
        let l' : PbDevState := { l with ptd := rest, log := l.log ++ [.read 4] }
        if parse h = msgDisconnect then (.ok (-1), l'.shut [])
        else if parse h = msgWaitEnd then (.ok 0, l')
        else (.error (.invalidResp (parse h)), l')
  /-- The blocking wait is the request followed by the picking of its answer. -/
  pbDevRequestWaitBlock_eq (l : PbDevState) (w : PbWait) :
    pbDevRequestWaitBlock w l =
      if (pbDevRequestWaitNonblock w l).1 = 0 then
        pbDevPickWaitResp (pbDevRequestWaitNonblock w l).2
      else (.ok (-1), (pbDevRequestWaitNonblock w l).2)
  /-- `bs_malloc` gives a block that overlaps none of the allocated ones. -/
  bsMalloc_fresh (heap : List Block) (n : Nat) (b : Block) (hb : b ∈ heap) (a : Nat)
    (ha : InRange (bsMalloc heap n) n a) : ¬ InRange b.1 b.2 a

export LibPhyCom (BsTime PbWait)

attribute [reducible, instance] LibPhyCom.packedTime LibPhyCom.packedWait

-- ---------------------------------------------------------------------------
-- A library that keeps the laws
-- ---------------------------------------------------------------------------

/-- `pb_dev_read` over `read(2)`: the count of bytes read, or what there was and
a closed link. -/
def LibPhyCom.readFifo (n : Nat) (l : PbDevState) : Int32 × List Byte × PbDevState :=
  match split n l.ptd with
  | some (bs, rest) =>
    (Int32.ofNat (min n 0x7fffffff), bs, { l with ptd := rest, log := l.log ++ [.read n] })
  | none => (-1, l.ptd.take n, { l with ptd := [] }.shut [.read n])

def LibPhyCom.leave (header : PcHeader) (l : PbDevState) : PbDevState :=
  if l.connected then l.shut [.msg header []] else l

def LibPhyCom.pickWait (l : PbDevState) : Except Stop Int32 × PbDevState :=
  if l.connected then
    match split 4 l.ptd with
    | none => (.ok (-1), { l with ptd := [] }.shut [.read 4])
    | some (h, rest) =>
      let l' : PbDevState := { l with ptd := rest, log := l.log ++ [.read 4] }
      if parse h = (0xFFFF : PcHeader) then (.ok (-1), l'.shut [])
      else if parse h = (0x81 : PcHeader) then (.ok 0, l')
      else (.error (.invalidResp (parse h)), l')
  else (.ok (-1), l)

def LibPhyCom.requestWait (w : UInt64) (l : PbDevState) : Int32 × PbDevState :=
  if l.connected then (0, l.add [.msg 0x01 (bytes w)]) else (-1, l)

def LibPhyCom.pastHeap (heap : List Block) : Nat := (heap.map fun b => b.1 + b.2).foldr max 0

theorem LibPhyCom.le_pastHeap {heap : List Block} (hb : b ∈ heap) : b.1 + b.2 ≤ pastHeap heap := by
  induction heap with
  | nil => simp at hb
  | cons c heap ih =>
    simp only [pastHeap, List.map_cons, List.foldr_cons] at ih ⊢
    rcases List.mem_cons.mp hb with rfl | hb
    · exact Nat.le_max_left _ _
    · exact Nat.le_trans (ih hb) (Nat.le_max_right _ _)

theorem LibPhyCom.readCount_toInt (n : Nat) :
    (Int32.ofNat (min n 0x7fffffff)).toInt = (min n 0x7fffffff : Nat) := by
  exact Int32.toInt_ofNat_of_lt (Nat.lt_of_le_of_lt (Nat.min_le_right _ _) (by decide))

theorem LibPhyCom.readCount_ne_minus_one (n : Nat) : Int32.ofNat (min n 0x7fffffff) ≠ -1 := by
  intro h
  have hcount := readCount_toInt n
  rw [h, show (-1 : Int32).toInt = -1 by decide] at hcount
  omega

theorem LibPhyCom.readCount_ne_one (n : Nat) (hn : n ≠ 1) :
    Int32.ofNat (min n 0x7fffffff) ≠ 1 := by
  intro h
  have hcount := readCount_toInt n
  rw [h, show (1 : Int32).toInt = 1 by decide] at hcount
  omega

theorem LibPhyCom.readFifo_full (l : PbDevState) (n : Nat) (_ : l.connected = true)
    (hn : n ≤ l.ptd.length) :
    readFifo n l = (Int32.ofNat (min n 0x7fffffff), l.ptd.take n,
      { l with ptd := l.ptd.drop n, log := l.log ++ [.read n] }) := by
  simp only [readFifo, split, if_pos hn]

theorem LibPhyCom.readFifo_short (l : PbDevState) (n : Nat) (_ : l.connected = true)
    (hn : l.ptd.length < n) :
    readFifo n l = (-1, l.ptd.take n, { l with ptd := [] }.shut [.read n]) := by
  simp only [readFifo, split_eq_none.mpr hn]

theorem LibPhyCom.leave_open (header : PcHeader) (l : PbDevState) (hc : l.connected = true) :
    leave header l = l.shut [.msg header []] :=
  if_pos hc

theorem LibPhyCom.leave_closed (header : PcHeader) (l : PbDevState) (hc : l.connected = false) :
    leave header l = l :=
  if_neg (ne_true_of_eq_false hc)

theorem LibPhyCom.posix_headers :
    (0xFFFF : PcHeader) ∉ headers2G4 ∧ (0xFFFE : PcHeader) ∉ 0xFFFF :: headers2G4 ∧
      (0x01 : PcHeader) ∉ 0xFFFF :: 0xFFFE :: headers2G4 ∧
      (0x81 : PcHeader) ∉ 0xFFFF :: headers2G4 := by
  decide

theorem LibPhyCom.pastHeap_fresh (heap : List Block) (n : Nat) (b : Block) (hb : b ∈ heap) (a : Nat)
    (ha : InRange (pastHeap heap) n a) : ¬ InRange b.1 b.2 a := by
  have hle := le_pastHeap hb
  have hpast := ha.1
  intro hin
  have hbelow := hin.2
  omega

/-- 64-bit times, `read(2)` and a heap that only grows. -/
@[reducible] def LibPhyCom.posix : LibPhyCom where
  BsTime := UInt64
  packedTime := inferInstance
  timeNever := -1
  PbWait := UInt64
  packedWait := inferInstance
  msgDisconnect := 0xFFFF
  msgTerminate := 0xFFFE
  msgWait := 0x01
  msgWaitEnd := 0x81
  pbDevRead := readFifo
  pbDevCleanUp l := l.shut []
  pbDevDisconnect := leave 0xFFFF
  pbDevTerminate := leave 0xFFFE
  pbSendMsg header body l := l.add [.msg header body]
  pbSendPayload bs l := if bs.isEmpty then l else l.add [.raw bs]
  pbDevInitCom _ _ _ _ := (0, ⟨true, [], []⟩)
  pbDevRequestWaitNonblock := requestWait
  pbDevPickWaitResp := pickWait
  pbDevRequestWaitBlock w l :=
    if (requestWait w l).1 = 0 then pickWait (requestWait w l).2
    else (.ok (-1), (requestWait w l).2)
  bsMalloc heap _ := pastHeap heap
  readOk n := Int32.ofNat (min n 0x7fffffff)
  leftover n s := s.take n
  msgDisconnect_new := posix_headers.1
  msgTerminate_new := posix_headers.2.1
  msgWait_new := posix_headers.2.2.1
  msgWaitEnd_new := posix_headers.2.2.2
  readOk_ne := readCount_ne_minus_one
  readOk_ne_one := readCount_ne_one
  length_leftover _ s := List.length_take_le _ s
  pbDevRead_full := readFifo_full
  pbDevRead_short := readFifo_short
  pbDevCleanUp_eq _ _ := rfl
  pbDevDisconnect_open := leave_open 0xFFFF
  pbDevDisconnect_closed := leave_closed 0xFFFF
  pbDevTerminate_open := leave_open 0xFFFE
  pbDevTerminate_closed := leave_closed 0xFFFE
  pbSendMsg_eq _ _ _ := rfl
  pbSendPayload_nil _ := rfl
  pbSendPayload_cons _ _ _ := rfl
  pbDevInitCom_ok _ _ _ _ _ := rfl
  pbDevInitCom_fail _ _ _ _ h _ := absurd rfl h
  pbDevRequestWaitNonblock_open _ _ hc := if_pos hc
  pbDevRequestWaitNonblock_closed _ _ hc := if_neg (ne_true_of_eq_false hc)
  pbDevPickWaitResp_closed _ hc := if_neg (ne_true_of_eq_false hc)
  pbDevPickWaitResp_open _ hc := if_pos hc
  pbDevRequestWaitBlock_eq _ _ := rfl
  bsMalloc_fresh := pastHeap_fresh

end PhyCom2G4
