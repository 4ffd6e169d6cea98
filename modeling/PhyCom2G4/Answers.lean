import PhyCom2G4.WoCallbacks

/-!
# What the reading functions do

The outcome of each function that reads an answer of the phy, as a function
of the bytes still to come: the done structure of a message, the packet after
an address was found, and the whole of what one wait of the family without
callbacks can hear.
-/

namespace PhyCom2G4

open Bytes Memory Program Program.Prog LibPhyCom

-- ---------------------------------------------------------------------------
-- Headers
-- ---------------------------------------------------------------------------

@[simp] theorem addressfound_ne_abortreeval (v : RxVersion) : v.addressfound ≠ msgAbortreeval := by
  cases v <;> decide

@[simp] theorem rxEnd_ne_abortreeval (v : RxVersion) : v.rxEnd ≠ msgAbortreeval := by
  cases v <;> decide

@[simp] theorem rxEnd_ne_addressfound (v v' : RxVersion) : v.rxEnd ≠ v'.addressfound := by
  cases v <;> cases v' <;> decide

variable [LibPhyCom]

theorem ne_msgDisconnect (h : PcHeader) (hh : h ∈ headers2G4) : h ≠ msgDisconnect :=
  fun he => msgDisconnect_new (he ▸ hh)

@[simp] theorem abortreeval_ne_disconnect : msgAbortreeval ≠ msgDisconnect :=
  ne_msgDisconnect _ (by decide)

@[simp] theorem txEnd_ne_disconnect : msgTxEnd ≠ msgDisconnect := ne_msgDisconnect _ (by decide)

@[simp] theorem ccaEnd_ne_disconnect : msgCcaEnd ≠ msgDisconnect := ne_msgDisconnect _ (by decide)

@[simp] theorem rssiEnd_ne_disconnect : msgRssiEnd ≠ msgDisconnect :=
  ne_msgDisconnect _ (by decide)

@[simp] theorem immrssiRrsiDone_ne_disconnect : msgImmrssiRrsiDone ≠ msgDisconnect :=
  ne_msgDisconnect _ (by decide)

@[simp] theorem addressfound_ne_disconnect (v : RxVersion) : v.addressfound ≠ msgDisconnect := by
  cases v <;> exact ne_msgDisconnect _ (by decide)

@[simp] theorem rxEnd_ne_disconnect (v : RxVersion) : v.rxEnd ≠ msgDisconnect := by
  cases v <;> exact ne_msgDisconnect _ (by decide)

@[simp] theorem waitEnd_ne_disconnect : msgWaitEnd ≠ msgDisconnect :=
  fun he => msgWaitEnd_new (by simp [he])

-- ---------------------------------------------------------------------------
-- A done structure
-- ---------------------------------------------------------------------------

section
variable {w : World}

theorem run_handleRespI (hc : w.link.connected = true) (endMsg : PcHeader) (size : Nat)
    (header : PcHeader) (doneS : Addr) :
    (handleRespI endMsg size header doneS).run w =
      if header = endMsg then match split size w.link.ptd with
        | some (done, rest) => (.ok 0, (w.took size rest).stored doneS done)
        | none => (.ok (-1), (w.cut size).stored doneS (leftover size w.link.ptd))
      else if header = msgDisconnect then (.ok (-1), w.shut [])
      else (.error (.invalidResp header), w) := by
  simp only [handleRespI, run_ite, run_bind, run_devRead hc, run_devCleanUp hc, run_invalidResp,
    run_pure]
  split
  next =>
    cases split size w.link.ptd <;> simp [readOk_ne]
  next => rfl

/-- A header that ends no transaction and does not disconnect stops the
program, whatever the state of the link. -/
theorem run_handleRespI_invalid (hend : header ≠ endMsg) (hdis : header ≠ msgDisconnect) :
    (handleRespI endMsg size header doneS).run w = (.error (.invalidResp header), w) := by
  simp only [handleRespI, if_neg hend, if_neg hdis, run_invalidResp]

-- ---------------------------------------------------------------------------
-- An address found
-- ---------------------------------------------------------------------------

/-- What an ADDRESSFOUND header is followed by, for a buffer of a given size. -/
inductive Found
  /-- The done structure comes short: what there is of it. -/
  | doneCut (s : List Byte)
  | tooBig (done rest : List Byte)
  /-- The packet comes short: what there is of it. -/
  | packetCut (done s : List Byte)
  | whole (done packet rest : List Byte)
  deriving DecidableEq

def RxVersion.found (v : RxVersion) (bufSize : Nat) (s : List Byte) : Found :=
  match split v.sizeofDone s with
  | none => .doneCut s
  | some (done, s) =>
    if 0 < bufSize ∧ bufSize < v.packetSize done then .tooBig done s
    else match split (v.packetSize done) s with
      | none => .packetCut done s
      | some (packet, rest) => .whole done packet rest

/-- The buffer a packet of `n` bytes goes to is there: it is allocated when it
was given no size. -/
def World.buffered (rxBuf : Addr) (bufSize n : Nat) (w : World) : World :=
  if bufSize < n then w.malloced rxBuf n else w

def World.picked (rxBuf : Addr) (bufSize : Nat) (packet rest : List Byte) (w : World) : World :=
  if packet = [] then w
  else
    let w := w.buffered rxBuf bufSize packet.length
    (w.took packet.length rest).stored (w.ptr rxBuf) packet

def Found.world (v : RxVersion) (doneS rxBuf : Addr) (bufSize : Nat) : Found → World → World
  | .doneCut s, w => (w.cut v.sizeofDone).stored doneS (leftover v.sizeofDone s)
  | .tooBig done rest, w =>
    ((w.took v.sizeofDone rest).stored doneS done).shut [.msg msgDisconnect []]
  | .packetCut done s, w =>
    let w := ((w.took v.sizeofDone s).stored doneS done).buffered rxBuf bufSize (v.packetSize done)
    (w.cut (v.packetSize done)).stored (w.ptr rxBuf) (leftover (v.packetSize done) s)
  | .whole done packet rest, w =>
    ((w.took v.sizeofDone (packet ++ rest)).stored doneS done).picked rxBuf bufSize packet rest

/-- A store with the done structure and the packet of an answer in it. -/
def filled (doneS rxBuf : Addr) (bufSize : Nat) (done packet : List Byte) (s : Regions.Store) :
    Regions.Store :=
  (s.write doneS done).deliver bsMalloc rxBuf bufSize packet.length packet

@[simp] theorem filled_nil (doneS rxBuf : Addr) (bufSize : Nat) (done : List Byte)
    (s : Regions.Store) : filled doneS rxBuf bufSize done [] s = s.write doneS done := by
  simp [filled, Regions.Store.deliver]

theorem buffered_stored_store (rxBuf : Addr) (bufSize n : Nat) (bs : List Byte) :
    ((w.buffered rxBuf bufSize n).stored ((w.buffered rxBuf bufSize n).ptr rxBuf) bs).store =
      w.store.deliver bsMalloc rxBuf bufSize n bs := by
  unfold World.buffered Regions.Store.deliver
  simp only [World.store]
  split <;> rfl

theorem picked_store (rxBuf : Addr) (bufSize : Nat) (packet rest : List Byte) :
    (w.picked rxBuf bufSize packet rest).store =
      w.store.deliver bsMalloc rxBuf bufSize packet.length packet := by
  unfold World.picked
  split
  next he => simp [he, Regions.Store.deliver, Regions.Store.write]
  next => exact buffered_stored_store rxBuf bufSize packet.length packet

@[simp] theorem buffered_link (rxBuf : Addr) (bufSize n : Nat) :
    (w.buffered rxBuf bufSize n).link = w.link := by
  unfold World.buffered; split <;> rfl

@[simp] theorem buffered_nc (rxBuf : Addr) (bufSize n : Nat) :
    (w.buffered rxBuf bufSize n).nc = w.nc := by
  unfold World.buffered; split <;> rfl

@[simp] theorem buffered_mem (rxBuf : Addr) (bufSize n : Nat) :
    (w.buffered rxBuf bufSize n).mem = w.mem := by
  unfold World.buffered; split <;> rfl

theorem run_rxPickPacket (hc : w.link.connected = true) (n : Nat) (rxBuf : Addr) (bufSize : Nat) :
    (rxPickPacket n rxBuf bufSize).run w =
      if 0 < bufSize ∧ bufSize < n then (.ok (-1), w.shut [.msg msgDisconnect []])
      else match split n w.link.ptd with
        | some (packet, rest) => (.ok 0, w.picked rxBuf bufSize packet rest)
        | none => (.ok (-1), ((w.buffered rxBuf bufSize n).cut n).stored
            ((w.buffered rxBuf bufSize n).ptr rxBuf) (leftover n w.link.ptd)) := by
  rcases Nat.eq_zero_or_pos n with rfl | hn
  · simp [rxPickPacket, World.picked]
  have hpicked : ∀ packet rest, split n w.link.ptd = some (packet, rest) →
      w.picked rxBuf bufSize packet rest =
        ((w.buffered rxBuf bufSize n).took n rest).stored ((w.buffered rxBuf bufSize n).ptr rxBuf)
          packet := by
    intro packet rest hs
    obtain ⟨-, hl⟩ := split_eq_some.mp hs
    have hne : packet ≠ [] := by
      rintro rfl
      simp at hl
      omega
    simp only [World.picked, if_neg hne, hl]
  simp only [rxPickPacket, if_pos hn]
  by_cases hfit : n ≤ bufSize
  · have hb : w.buffered rxBuf bufSize n = w := if_neg (by omega)
    rw [if_pos hfit, if_neg (by omega)]
    simp only [run_bind, run_pure, run_get, run_devRead hc, Bool.true_eq_false, if_false]
    cases hs : split n w.link.ptd with
    | none => simp [hb]
    | some r => simp [hpicked _ _ hs, hb, readOk_ne]
  by_cases hzero : bufSize = 0
  · have hb : w.buffered rxBuf bufSize n = w.malloced rxBuf n := if_pos (by omega)
    have hcm : (w.malloced rxBuf n).link.connected = true := hc
    rw [if_neg hfit, if_pos hzero, if_neg (by omega)]
    simp only [run_bind, run_mallocTo, run_pure, run_get, run_devRead hcm, Bool.true_eq_false,
      if_false, World.malloced_link]
    cases hs : split n w.link.ptd with
    | none => simp [hb]
    | some r => simp [hpicked _ _ hs, hb, readOk_ne]
  · rw [if_neg hfit, if_neg hzero, if_pos (by omega)]
    simp [run_devDisconnect hc]

theorem Found.world_took (f : Found) (v : RxVersion) (doneS rxBuf : Addr) (bufSize n : Nat)
    (s s' : List Byte) :
    f.world v doneS rxBuf bufSize (w.took n s) = f.world v doneS rxBuf bufSize (w.took n s') := by
  cases f <;> rfl

def Found.complete : Found → Bool
  | .whole .. => true
  | _ => false

@[simp] theorem picked_connected (rxBuf : Addr) (bufSize : Nat) (packet rest : List Byte) :
    (w.picked rxBuf bufSize packet rest).link.connected = w.link.connected := by
  unfold World.picked
  split
  · rfl
  · simp

theorem picked_ptd (rxBuf : Addr) (bufSize : Nat) (h : w.link.ptd = packet ++ rest) :
    (w.picked rxBuf bufSize packet rest).link.ptd = rest := by
  unfold World.picked
  split
  next he => simpa [he] using h
  next => rfl

theorem picked_mem (rxBuf : Addr) (bufSize : Nat) (packet rest : List Byte) :
    (w.picked rxBuf bufSize packet rest).mem =
      store w.mem ((w.picked rxBuf bufSize packet rest).ptr rxBuf) packet := by
  unfold World.picked
  split
  next he => simp [he]
  next => simp

theorem found_connected (f : Found) (v : RxVersion) (doneS rxBuf : Addr) (bufSize : Nat) :
    (f.world v doneS rxBuf bufSize w).link.connected = (f.complete && w.link.connected) := by
  cases f <;> simp [Found.world, Found.complete]

@[simp] theorem found_nc (f : Found) (v : RxVersion) (doneS rxBuf : Addr) (bufSize : Nat) :
    (f.world v doneS rxBuf bufSize w).nc = w.nc := by
  cases f with
  | whole done packet rest =>
    simp only [Found.world, World.picked]
    split <;> simp
  | _ => simp [Found.world]

@[simp] theorem found_abortF (f : Found) (v : RxVersion) (doneS rxBuf : Addr) (bufSize : Nat) :
    (f.world v doneS rxBuf bufSize w).abortF = w.abortF := by
  cases f <;> simp only [Found.world, World.picked, World.buffered] <;> (repeat' split) <;> rfl

@[simp] theorem found_calls (f : Found) (v : RxVersion) (doneS rxBuf : Addr) (bufSize : Nat) :
    (f.world v doneS rxBuf bufSize w).calls = w.calls := by
  cases f <;> simp only [Found.world, World.picked, World.buffered] <;> (repeat' split) <;> rfl

/-- A done structure is more than one byte long, so that its full read never
returns 1. -/
theorem one_lt_sizeofDone (v : RxVersion) : 1 < v.sizeofDone := by
  cases v with
  | v1 =>
    have : sizeof RxDone = 2 + (2 + (sizeof BsTime + (sizeof BsTime + 4))) := rfl
    simp only [RxVersion.sizeofDone]
    omega
  | v2 =>
    have : sizeof Rxv2Done = sizeof BsTime + (sizeof BsTime + (8 + (2 + (4 + (2 + 2))))) := rfl
    simp only [RxVersion.sizeofDone]
    omega

theorem found_doneCut (v : RxVersion) (bufSize : Nat) (hd : split v.sizeofDone s = none) :
    v.found bufSize s = .doneCut s := by
  simp only [RxVersion.found, hd]

theorem run_rxPickPacket_found (hc : w.link.connected = true) (v : RxVersion)
    (doneS rxBuf : Addr) (bufSize : Nat) (hd : split v.sizeofDone w.link.ptd = some (done, s)) :
    let w' := (w.took v.sizeofDone s).stored doneS done
    let f := v.found bufSize w.link.ptd
    (rxPickPacket (v.packetSize (load w'.mem doneS v.sizeofDone)) rxBuf bufSize).run w' =
      (.ok (if f.complete then 0 else -1), f.world v doneS rxBuf bufSize w) := by
  obtain ⟨-, hl⟩ := split_eq_some.mp hd
  dsimp only
  rw [run_rxPickPacket (by exact hc)]
  simp only [World.stored_mem, World.took_mem, load_store _ _ _ hl, World.stored_link,
    World.took_link_ptd, RxVersion.found, hd]
  split
  next => rfl
  next =>
    cases hp : split (v.packetSize done) s with
    | none => rfl
    | some r =>
      obtain ⟨packet, rest⟩ := r
      obtain ⟨rfl, -⟩ := split_eq_some.mp hp
      rfl

end

end PhyCom2G4
