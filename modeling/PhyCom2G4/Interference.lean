import PhyCom2G4.Exchanges
import PhyCom2G4.Packets
import PhyCom2G4.Processes

/-!
# Devices of one program do not disturb each other

Each device of a program has a region of its memory. As long as each of them,
run alone, gives the library only places of its own, what the others do is
nothing to it: in whatever order the program acts as them, each device writes,
hears, returns and stores what it does alone (`devices_apart`).
-/

namespace PhyCom2G4

open Bytes Memory Regions Runs Unwinding Program Program.Prog LibPhyCom

variable [LibPhyCom]

-- ---------------------------------------------------------------------------
-- Places a call is given
-- ---------------------------------------------------------------------------

def Owns (own : Region) (p n : Nat) : Prop := ∀ a, InRange p n a → own.bytes a

/-- What a request sends of the memory. -/
def NcReq.payload : NcReq → Addr × Nat
  | .tx s packet _ => (packet, s.packetSize.toNat)
  | .txv2 s packet _ => (packet, s.packetSize.toNat)
  | .tx2v1 s packet _ => (packet, s.packetSize.toNat)
  | .rxv2 s phyAddr .. => (phyAddr, s.nAddr.toNat * sizeof Address)
  | .rx2v1 s phyAddr .. => (phyAddr, s.nAddr.toNat * sizeof Address)
  | _ => (0, 0)

def Transaction.payload : Transaction → Addr × Nat
  | .tx s packet _ => (packet, s.packetSize.toNat)
  | .txv2 s packet _ => (packet, s.packetSize.toNat)
  | .tx2v1 s packet _ => (packet, s.packetSize.toNat)
  | .rxv2 s phyAddr .. => (phyAddr, s.nAddr.toNat * sizeof Address)
  | .rx2v1 s phyAddr .. => (phyAddr, s.nAddr.toNat * sizeof Address)
  | _ => (0, 0)

def CbReq.payload : CbReq → Addr × Nat
  | .transaction t => t.payload
  | .txNoWait s packet => (packet, s.packetSize.toNat)
  | .txv2NoWait s packet => (packet, s.packetSize.toNat)
  | _ => (0, 0)

def CbReq.sizeofDone : CbReq → Nat
  | .transaction t => t.sizeofDone
  | .pickTxresp _ => sizeof TxDone
  | .rssi .. | .rssiv2 .. => sizeof RssiDone
  | _ => 0

/-- An open call is given places in the region: its own and those it goes on from. -/
structure NcReq.KeepsTo (own : Region) (c : NcReq) (w : World) : Prop where
  payload : Owns own c.payload.1 c.payload.2
  done : ∀ l, c.listener = some l → Owns own (l.doneS (c.notes w.nc)) l.sizeofDone
  buffer : ∀ v, c.listener = some (.rx v) → own.vars (c.notes w.nc).rxbuf ∧
    Owns own (w.ptr (c.notes w.nc).rxbuf) (c.notes w.nc).bufsize

structure CbReq.KeepsTo (own : Region) (c : CbReq) (w : World) : Prop where
  payload : Owns own c.payload.1 c.payload.2
  done : Owns own c.fills c.sizeofDone
  buffer : ∀ t r, c = .transaction t → t.reception = some r →
    own.vars r.rxBuf ∧ Owns own (w.ptr r.rxBuf) r.bufSize
  /-- A packet over its own done structure would have the callback look for more of it than
  the buffer holds. -/
  judged : ∀ t r, c = .transaction t → t.reception = some r → r.devRxevalF.isSome →
    ∀ a, InRange (w.ptr r.rxBuf) r.bufSize a → ¬ InRange t.doneS t.sizeofDone a

def DevAct.KeepsTo (own : Region) (a : DevAct) (w : World) : Prop :=
  match a with
  | .call (.nc c) => w.link.connected = true → c.passes w.nc = true → c.KeepsTo own w
  | .call (.cb c) => w.link.connected = true → c.KeepsTo own w
  | .write p bs => Owns own p bs.length
  | .point q _ => own.vars q
  | _ => True

-- ---------------------------------------------------------------------------
-- Worlds that look the same to a device
-- ---------------------------------------------------------------------------

/-- The device is in the same state, and its region is the same. -/
structure Sees (used : Addr → Prop) (own : Region) (lost : Prop) (w w' : World) : Prop where
  link : w.link = w'.link
  nc : w.nc = w'.nc
  abortF : w.abortF = w'.abortF
  calls : w.calls = w'.calls
  store : Matches used own lost w.store w'.store

structure Goes (used : Addr → Prop) (own : Region) (lost : Prop) (s : Store) (w w' : World) :
    Prop where
  sees : Sees used own lost w w'
  frame : Frame own s w.store

section
variable {used : Addr → Prop} {own : Region} {lost : Prop} {w w' w₁ : World} {s : Store}

theorem Sees.goes (h : Sees used own lost w w') : Goes used own lost w.store w w' :=
  ⟨h, .refl _ _⟩

theorem Goes.after (h : Frame own s w.store) (h' : Goes used own lost w.store w₁ w') :
    Goes used own lost s w₁ w' :=
  ⟨h'.sees, h.trans h'.frame⟩

namespace Sees

theorem setLink (h : Sees used own lost w w') (f : PbDevState → PbDevState) :
    Sees used own lost { w with link := f w.link } { w' with link := f w'.link } :=
  ⟨congrArg f h.link, h.nc, h.abortF, h.calls, h.store⟩

theorem setNc (h : Sees used own lost w w') (f : DevStateNc → DevStateNc) :
    Sees used own lost { w with nc := f w.nc } { w' with nc := f w'.nc } :=
  ⟨h.link, congrArg f h.nc, h.abortF, h.calls, h.store⟩

theorem setCalls (h : Sees used own lost w w') (calls : List Callback) :
    Sees used own lost { w with calls } { w' with calls } :=
  ⟨h.link, h.nc, h.abortF, rfl, h.store⟩

theorem took (h : Sees used own lost w w') (n : Nat) (rest : List Byte) :
    Sees used own lost (w.took n rest) (w'.took n rest) :=
  h.setLink fun l => { l with ptd := rest, log := l.log ++ [.read n] }

theorem cut (h : Sees used own lost w w') (n : Nat) :
    Sees used own lost (w.cut n) (w'.cut n) :=
  h.setLink fun l => { l with ptd := [] }.shut [.read n]

theorem sent (h : Sees used own lost w w') (es : List Event) :
    Sees used own lost (w.sent es) (w'.sent es) :=
  h.setLink (PbDevState.add es)

theorem shut (h : Sees used own lost w w') (es : List Event) :
    Sees used own lost (w.shut es) (w'.shut es) :=
  h.setLink (PbDevState.shut es)

theorem setOngoing (h : Sees used own lost w w') (o : OngoingTransaction) :
    Sees used own lost (w.setOngoing o) (w'.setOngoing o) :=
  h.setNc fun nc => { nc with ongoing := o }

end Sees

theorem Sees.stored (h : Sees used own lost w w') (hu : ∀ a, own.bytes a → used a)
    (hp : Owns own p bs.length) :
    Goes used own lost w.store (w.stored p bs) (w'.stored p bs) :=
  ⟨⟨h.link, h.nc, h.abortF, h.calls, h.store.write hu hp⟩, frame_write hp⟩

omit [LibPhyCom] in
theorem Owns.mono (h : Owns own p n) (hm : m ≤ n) : Owns own p m :=
  fun a ha => h a ⟨ha.1, by have := ha.2; omega⟩

theorem fresh_bsMalloc : Fresh bsMalloc := by
  rintro heap n a ha ⟨b, hb, hin⟩
  exact bsMalloc_fresh heap n b hb a ha hin

theorem Sees.deliver (h : Sees used own lost w w') (hu : ∀ a, own.bytes a → used a)
    (hq : own.vars q) (hroom : Owns own (w'.ptr q) room) (hlen : bs.length ≤ n)
    (hwhole : bs.length = n ∨ lost) :
    Goes used own lost w.store ((w.buffered q room n).stored ((w.buffered q room n).ptr q) bs)
      ((w'.buffered q room n).stored ((w'.buffered q room n).ptr q) bs) := by
  have hd := h.store.deliver fresh_bsMalloc hu hq hroom hlen hwhole
  rw [← buffered_stored_store, ← buffered_stored_store] at hd
  refine ⟨⟨?_, ?_, ?_, ?_, hd.1⟩, hd.2⟩
  · simp [h.link]
  · simp [h.nc]
  · simp only [World.stored_abortF, World.buffered]
    split <;> exact h.abortF
  · simp only [World.stored_calls, World.buffered]
    split <;> exact h.calls

theorem Sees.picked (h : Sees used own lost w w') (hu : ∀ a, own.bytes a → used a)
    (hq : own.vars rxBuf) (hroom : Owns own (w'.ptr rxBuf) bufSize) (packet rest : List Byte) :
    Goes used own lost w.store (w.picked rxBuf bufSize packet rest)
      (w'.picked rxBuf bufSize packet rest) := by
  unfold World.picked
  split
  · exact h.goes
  · have hd := h.deliver hu hq hroom (Nat.le_refl packet.length) (.inl rfl)
    exact ⟨hd.sees.took _ _, hd.frame⟩

theorem Sees.found (h : Sees used own lost w w') (hu : ∀ a, own.bytes a → used a) {f : Found}
    (hof : f.Of v bufSize bs) (hdone : Owns own doneS v.sizeofDone) (hq : own.vars rxBuf)
    (hroom : Owns own (w'.ptr rxBuf) bufSize) (hlost : f.complete = false → lost) :
    Goes used own lost w.store (f.world v doneS rxBuf bufSize w)
      (f.world v doneS rxBuf bufSize w') := by
  cases f with
  | doneCut bs' => exact (h.cut _).stored hu (hdone.mono (length_leftover _ _))
  | tooBig done rest =>
    have hd := (h.took v.sizeofDone rest).stored hu (hdone.mono (Nat.le_of_eq hof.2.1))
    exact ⟨hd.sees.shut _, hd.frame⟩
  | packetCut done bs' =>
    have hd := (h.took v.sizeofDone bs').stored hu (hdone.mono (Nat.le_of_eq hof.2.1))
    have hp := hd.sees.deliver hu hq hroom (length_leftover (v.packetSize done) bs')
      (.inr (hlost rfl))
    exact .after hd.frame ⟨hp.sees.cut _, hp.frame⟩
  | whole done packet rest =>
    have hd := (h.took v.sizeofDone (packet ++ rest)).stored hu (hdone.mono (Nat.le_of_eq hof.2.1))
    exact .after hd.frame (hd.sees.picked hu hq hroom packet rest)

-- ---------------------------------------------------------------------------
-- Without callbacks
-- ---------------------------------------------------------------------------

theorem Sees.clear (h : Sees used own lost w w') (l : Listener) :
    Sees used own lost (l.clear w) (l.clear w') := by
  cases l <;> first | exact h | exact h.setOngoing _

theorem clear_store (l : Listener) (w : World) : (l.clear w).store = w.store := by
  cases l <;> rfl

theorem Goes.judged (h : Goes used own lost s w w') (f : Found) :
    Goes used own lost s (f.judged w) (f.judged w') := by
  cases f with
  | whole done packet rest =>
    exact ⟨h.sees.setNc fun nc => { nc with weGotAddress := true, ongoing := .rxHeaderEval },
      h.frame⟩
  | _ => exact h

theorem Sees.heard (h : Sees used own lost w w') (hu : ∀ a, own.bytes a → used a) {l : Listener}
    {heard : Heard} (hof : heard.Of l w'.nc bs) (hdone : Owns own (l.doneS w'.nc) l.sizeofDone)
    (hbuf : ∀ v, l = .rx v → own.vars w'.nc.rxbuf ∧ Owns own (w'.ptr w'.nc.rxbuf) w'.nc.bufsize)
    (hlost : heard.ret l = .ok (-1) → lost) :
    Goes used own lost w.store (heard.world l w) (heard.world l w') := by
  have htook := fun rest => h.took (sizeof PcHeader) rest
  have hclear : ∀ rest, Goes used own lost w.store (l.clear (w.took (sizeof PcHeader) rest))
      (l.clear (w'.took (sizeof PcHeader) rest)) := by
    intro rest
    refine ⟨(htook rest).clear l, ?_⟩
    rw [clear_store]
    exact .refl _ _
  cases heard with
  | cut => exact (h.cut _).goes
  | reeval rest =>
    simp only [Heard.world]
    cases l.reeval with
    | none => exact (htook rest).goes
    | some o => exact ((htook rest).setOngoing o).goes
  | found v f =>
    obtain ⟨rfl, -, s', -, hf⟩ := hof
    obtain ⟨hq, hroom⟩ := hbuf v rfl
    have hincomplete : f.complete = false → lost := by
      intro hc
      refine hlost ?_
      cases f <;> first | rfl | cases hc
    have hfound := (htook []).found hu hf hdone hq hroom hincomplete
    simp only [Heard.world, h.nc]
    exact hfound.judged f
  | disconnect rest => exact ⟨(hclear rest).sees.shut _, (hclear rest).frame⟩
  | endCut hd bs' =>
    simp only [Heard.world, h.nc]
    have hcut := ((hclear bs').sees.cut l.sizeofDone).stored hu
      (hdone.mono (length_leftover l.sizeofDone bs'))
    exact .after (hclear bs').frame hcut
  | ended hd done rest =>
    by_cases hl : l = .wait
    · subst hl
      exact (htook _).goes
    · simp only [Heard.world, tookDone_clear hl, World.took_nc, h.nc]
      have hstored := ((hclear (done ++ rest)).sees.took l.sizeofDone rest).stored hu
        (hdone.mono (Nat.le_of_eq hof.2.2))
      exact .after (hclear (done ++ rest)).frame hstored
  | invalid hd rest =>
    cases l with
    | rx v => exact (htook rest).goes
    | _ => exact hclear rest

theorem NcReq.events_congr {m m' : Mem} (c : NcReq)
    (h : load m c.payload.1 c.payload.2 = load m' c.payload.1 c.payload.2) :
    c.events m = c.events m' := by
  cases c with
  | tx s packet d | txv2 s packet d | tx2v1 s packet d =>
    simp only [NcReq.payload] at h
    simp only [NcReq.events, NcReq.message, h]
  | rxv2 s phyAddr d buf size | rx2v1 s phyAddr d buf size =>
    simp only [NcReq.payload] at h
    simp only [NcReq.events, NcReq.message, h]
  | rxCont b => cases b <;> rfl
  | rxv2Cont b abort => cases b <;> rfl
  | _ => rfl

theorem Sees.spoken (h : Sees used own lost w w') (c : NcReq)
    (hp : Owns own c.payload.1 c.payload.2) : Sees used own lost (c.spoken w) (c.spoken w') := by
  have hevents : c.events w.mem = c.events w'.mem := c.events_congr (h.store.load hp)
  have hsent := (h.sent (c.events w'.mem)).setNc c.notes
  unfold NcReq.spoken
  rw [hevents]
  exact hsent

theorem Sees.nc_exec (h : Sees used own lost w w') (hu : ∀ a, own.bytes a → used a) (c : NcReq)
    (hk : w'.link.connected = true → c.passes w'.nc = true → c.KeepsTo own w')
    (hlost : (c.exec.run w').1 = .ok (-1) → lost) :
    (c.exec.run w).1 = (c.exec.run w').1 ∧
      Goes used own lost w.store (c.exec.run w).2 (c.exec.run w').2 := by
  cases hc : w'.link.connected with
  | false =>
    rw [run_exec_closed (by rw [h.link, hc]), run_exec_closed hc]
    exact ⟨rfl, h.goes⟩
  | true =>
  have hc' : w.link.connected = true := by rw [h.link, hc]
  cases hp : c.passes w'.nc with
  | false =>
    rw [run_exec_stopped hc' c (by rw [h.nc, hp]), run_exec_stopped hc c hp]
    exact ⟨rfl, (h.setNc c.notesFirst).goes⟩
  | true =>
  have hp' : c.passes w.nc = true := by rw [h.nc, hp]
  obtain ⟨hpayload, hdone, hbuf⟩ := hk hc hp
  have hsp := h.spoken c hpayload
  cases hl : c.listener with
  | none =>
    rw [run_exec_reject hc' c hp' hl, run_exec_reject hc c hp hl]
    exact ⟨rfl, (hsp.setOngoing .nothing).goes⟩
  | some l =>
    rw [run_exec_heard hc c hp hl] at hlost ⊢
    rw [run_exec_heard hc' c hp' hl, h.nc, h.link]
    refine ⟨rfl, hsp.heard hu (hear_of l (c.notes w'.nc) w'.link.ptd) (hdone l hl) ?_ hlost⟩
    rintro v rfl
    exact hbuf v hl

-- ---------------------------------------------------------------------------
-- With callbacks
-- ---------------------------------------------------------------------------

theorem Sees.wait (h : Sees used own lost w w') (W : Wait) :
    Sees used own lost (W.world w) (W.world w') := by
  have ha : Sees used own lost (W.answered w) (W.answered w') :=
    (h.sent (answerEvents W.answers)).setCalls W.calls
  unfold Wait.world
  cases W.ending with
  | cut => exact ha.cut _
  | refused rest => exact (ha.took _ rest).shut _
  | got hd rest => exact ha.took _ rest

theorem wait_store (W : Wait) (w : World) : (W.world w).store = w.store := by
  unfold Wait.world
  cases W.ending <;> rfl

theorem Sees.finish (h : Sees used own lost w w') (hu : ∀ a, own.bytes a → used a)
    (hdone : Owns own doneS size) (endMsg hd : PcHeader) (bs : List Byte) :
    Goes used own lost w.store ((finish endMsg size hd bs).world size doneS w)
      ((finish endMsg size hd bs).world size doneS w') := by
  unfold PhyCom2G4.finish
  split
  · cases hs : split size bs with
    | none => exact (h.cut size).stored hu (hdone.mono (length_leftover size bs))
    | some r =>
      obtain ⟨-, hlen⟩ := split_eq_some.mp hs
      exact (h.took size r.2).stored hu (hdone.mono (Nat.le_of_eq hlen))
  · split
    · exact (h.shut []).goes
    · exact h.goes

theorem Sees.close (h : Sees used own lost w w') (hu : ∀ a, own.bytes a → used a)
    (t : Transaction) (hdone : Owns own t.doneS t.sizeofDone) (W : Wait) :
    (t.close W w).1 = (t.close W w').1 ∧
      Goes used own lost w.store (t.close W w).2 (t.close W w').2 := by
  have hW := h.wait W
  unfold Transaction.close
  cases W.ending with
  | got hd rest =>
    have hf := hW.finish hu hdone t.endMsg hd rest
    rw [wait_store] at hf
    exact ⟨rfl, hf⟩
  | _ =>
    refine ⟨rfl, hW, ?_⟩
    rw [wait_store]
    exact .refl _ _

/-- What a callback is given for a packet: the library's copies of the phy's. -/
theorem held_whole {v : RxVersion} (rxBuf : Addr)
    (hof : (Found.whole done packet rest).Of v bufSize bs)
    (hcov : ∀ a, InRange doneS v.sizeofDone a → Allocated w.heap a)
    (hap : ∀ a, InRange (w.ptr rxBuf) bufSize a → ¬ InRange doneS v.sizeofDone a) :
    let w₁ := (Found.whole done packet rest).world v doneS rxBuf bufSize w
    load w₁.mem doneS v.sizeofDone = done ∧
      load w₁.mem (w₁.ptr rxBuf) (v.packetSize done) = packet := by
  obtain ⟨-, hdone, -, hsize⟩ := hof
  obtain ⟨hkept, hfresh⟩ := picked_own
    (w := (w.took v.sizeofDone (packet ++ rest)).stored doneS done) rxBuf bufSize packet rest
  simp only [Found.world, picked_mem, ← hsize]
  refine ⟨?_, load_store _ _ _ rfl⟩
  generalize World.picked rxBuf bufSize packet rest _ = w₁ at hkept hfresh ⊢
  have hout : ∀ a, InRange doneS v.sizeofDone a → ¬ InRange (w₁.ptr rxBuf) packet.length a := by
    intro a ha hin
    by_cases hlt : bufSize < packet.length
    · obtain ⟨b, hb, hba⟩ := hcov a ha
      exact (hfresh hlt).2.2 b hb a hin hba
    · rw [(hkept (Nat.le_of_not_lt hlt)).1] at hin
      simp only [World.stored_ptr, World.took_ptr] at hin
      exact hap a ⟨hin.1, by have := hin.2; omega⟩ ha
  rw [load_store_outside _ hout]
  exact load_store _ _ _ hdone

theorem Sees.judged (h : Sees used own lost w w') (r : Reception) (doneS : Addr)
    (hheld : r.devRxevalF.isSome → load w.mem doneS r.v.sizeofDone =
        load w'.mem doneS r.v.sizeofDone ∧
      load w.mem (w.ptr r.rxBuf) (r.v.packetSize (load w'.mem doneS r.v.sizeofDone)) =
        load w'.mem (w'.ptr r.rxBuf) (r.v.packetSize (load w'.mem doneS r.v.sizeofDone))) :
    r.accepts doneS w = r.accepts doneS w' ∧
      Sees used own lost (r.judged doneS w) (r.judged doneS w') := by
  unfold Reception.judged Reception.accepts
  cases hf : r.devRxevalF with
  | none => exact ⟨rfl, h⟩
  | some f =>
    obtain ⟨hdone, hpacket⟩ := hheld (by rw [hf]; rfl)
    simp only [hdone, hpacket, h.calls]
    exact ⟨trivial, h.setCalls _⟩

theorem frame_judged (r : Reception) (doneS : Addr) (h : Frame own s w.store) :
    Frame own s (r.judged doneS w).store := by
  unfold Reception.judged
  cases r.devRxevalF <;> exact h

theorem Sees.held (h : Sees used own lost w w') (hu : ∀ a, own.bytes a → used a)
    {v : RxVersion} (hof : (Found.whole done packet rest).Of v bufSize bs)
    (hdone : Owns own doneS v.sizeofDone) (hq : own.vars rxBuf)
    (hroom : Owns own (w'.ptr rxBuf) bufSize)
    (hap : ∀ a, InRange (w'.ptr rxBuf) bufSize a → ¬ InRange doneS v.sizeofDone a) :
    let f := Found.whole done packet rest
    let w₁ := f.world v doneS rxBuf bufSize w
    let w₁' := f.world v doneS rxBuf bufSize w'
    load w₁.mem doneS v.sizeofDone = load w₁'.mem doneS v.sizeofDone ∧
      load w₁.mem (w₁.ptr rxBuf) (v.packetSize (load w₁'.mem doneS v.sizeofDone)) =
        load w₁'.mem (w₁'.ptr rxBuf) (v.packetSize (load w₁'.mem doneS v.sizeofDone)) := by
  have hap' : ∀ a, InRange (w.ptr rxBuf) bufSize a → ¬ InRange doneS v.sizeofDone a := by
    intro a ha
    have hpos : 0 < bufSize := by
      have := ha.1
      have := ha.2
      omega
    have hfirst : own.bytes (w'.ptr rxBuf) :=
      hroom _ ⟨Nat.le_refl _, Nat.lt_add_of_pos_right hpos⟩
    have heq : w.ptr rxBuf = w'.ptr rxBuf := h.store.ptr_eq hu hq hfirst
    rw [heq] at ha
    exact hap a ha
  obtain ⟨hd, hp⟩ := held_whole rxBuf hof
    (fun a ha => (h.store.covered a (hu a (hdone a ha))).1) hap'
  obtain ⟨hd', hp'⟩ := held_whole rxBuf hof
    (fun a ha => (h.store.covered a (hu a (hdone a ha))).2) hap
  dsimp only
  rw [hd', hd, hp, hp']
  exact ⟨rfl, rfl⟩

theorem Sees.afterFound (h : Sees used own lost w w') (hu : ∀ a, own.bytes a → used a)
    {t : Transaction} {r : Reception} (hr : t.reception = some r)
    (hdone : Owns own t.doneS t.sizeofDone) (hq : own.vars r.rxBuf)
    (hroom : Owns own (w'.ptr r.rxBuf) r.bufSize)
    (hap : r.devRxevalF.isSome →
      ∀ a, InRange (w'.ptr r.rxBuf) r.bufSize a → ¬ InRange t.doneS t.sizeofDone a)
    (abort : Abort) (hlost : (t.afterFound r abort w').1 = .ok (-1, abort) → lost) :
    (t.afterFound r abort w).1 = (t.afterFound r abort w').1 ∧
      Goes used own lost w.store (t.afterFound r abort w).2 (t.afterFound r abort w').2 := by
  have hsize := (reception_ends hr).2
  have hdone' : Owns own t.doneS r.v.sizeofDone := hsize ▸ hdone
  unfold Transaction.afterFound at hlost ⊢
  dsimp only at hlost ⊢
  rw [h.link]
  have hof := found_of r.v r.bufSize w'.link.ptd
  generalize r.v.found r.bufSize w'.link.ptd = f at hlost hof ⊢
  have hfound := h.found hu hof hdone' hq hroom fun hc => hlost (by rw [if_neg (by simp [hc])])
  cases f with
  | whole done packet rest =>
    obtain ⟨haccepts, hjudged⟩ := hfound.sees.judged r t.doneS fun hf =>
      h.held hu hof hdone' hq hroom (hsize ▸ hap hf)
    have hframe := frame_judged r t.doneS hfound.frame
    simp only [Found.complete, if_true, haccepts]
    generalize r.accepts t.doneS _ = accept at hjudged ⊢
    have hsent := hjudged.sent [.raw (bytes (verdict accept))]
    replace hframe : Frame own w.store ((r.judged t.doneS _).sent
      [.raw (bytes (verdict accept))]).store := hframe
    generalize (r.judged t.doneS ((Found.whole done packet rest).world r.v t.doneS r.rxBuf r.bufSize
      w)).sent _ = w₂ at hsent hframe ⊢
    generalize (r.judged t.doneS ((Found.whole done packet rest).world r.v t.doneS r.rxBuf r.bufSize
      w')).sent _ = w₂' at hsent ⊢
    split
    · rw [hsent.abortF, hsent.calls, hsent.link]
      have hclose := hsent.close hu t hdone (await w₂'.abortF w₂'.calls abort w₂'.link.ptd)
      exact ⟨hclose.1, .after hframe hclose.2⟩
    · exact ⟨rfl, hsent, hframe⟩
  | _ => exact ⟨rfl, hfound⟩

theorem Transaction.message_congr {m m' : Mem} (t : Transaction)
    (h : load m t.payload.1 t.payload.2 = load m' t.payload.1 t.payload.2) :
    t.message m = t.message m' := by
  cases t with
  | tx s packet d | txv2 s packet d | tx2v1 s packet d =>
    simp only [Transaction.payload] at h
    simp only [Transaction.message, h]
  | rxv2 s phyAddr d buf size eval | rx2v1 s phyAddr d buf size eval =>
    simp only [Transaction.payload] at h
    simp only [Transaction.message, h]
  | _ => rfl

theorem Sees.proceed (h : Sees used own lost w w') (hu : ∀ a, own.bytes a → used a)
    (t : Transaction) (hk : (CbReq.transaction t).KeepsTo own w')
    (hlost : ∀ abort, (t.proceed w').1 = .ok (-1, abort) → lost) :
    (t.proceed w).1 = (t.proceed w').1 ∧
      Goes used own lost w.store (t.proceed w).2 (t.proceed w').2 := by
  obtain ⟨hpayload, hdone, hbuf, hap⟩ := hk
  have hmessage : t.message w.mem = t.message w'.mem :=
    t.message_congr (h.store.load hpayload)
  have hsent := h.sent (t.message w'.mem).events
  have hptr : (w'.sent (t.message w'.mem).events).ptr = w'.ptr := rfl
  have hstore : (w.sent (t.message w'.mem).events).store = w.store := rfl
  unfold Transaction.proceed at hlost ⊢
  dsimp only at hlost ⊢
  rw [hmessage]
  generalize w.sent (t.message w'.mem).events = w₀ at hsent hstore ⊢
  generalize w'.sent (t.message w'.mem).events = w₀' at hsent hptr hlost ⊢
  rw [hsent.abortF, hsent.calls, hsent.link]
  generalize await w₀'.abortF w₀'.calls t.abort w₀'.link.ptd = W at hlost ⊢
  have hclose := hsent.close hu t hdone W
  rw [hstore] at hclose
  cases hr : t.reception with
  | none => exact hclose
  | some r =>
    obtain ⟨hq, hroom⟩ := hbuf t r rfl hr
    replace hap := hap t r rfl hr
    cases hend : W.ending with
    | got hd rest =>
      simp only [hr, hend] at hlost ⊢
      split
      next hfound =>
        rw [if_pos hfound] at hlost
        have hptrW : (W.world w₀').ptr = w'.ptr :=
          (congrArg Store.ptr (wait_store W w₀')).trans hptr
        have hafter := (hsent.wait W).afterFound hu hr hdone hq (hptrW ▸ hroom) (hptrW ▸ hap)
          W.abort (hlost W.abort)
        rwa [wait_store, hstore] at hafter
      next => exact hclose
    | _ => exact hclose

theorem Sees.answered (h : Sees used own lost w w') (hu : ∀ a, own.bytes a → used a)
    {l : Listener} (hl : ∀ v, l ≠ .rx v) (hdone : Owns own (l.doneS w'.nc) l.sizeofDone)
    (es : List Event)
    (hlost : ((l.hear w'.nc w'.link.ptd).outcome l (w'.sent es)).1 = .ok (-1) → lost) :
    ((l.hear w.nc w.link.ptd).outcome l (w.sent es)).1 =
        ((l.hear w'.nc w'.link.ptd).outcome l (w'.sent es)).1 ∧
      Goes used own lost w.store ((l.hear w.nc w.link.ptd).outcome l (w.sent es)).2
        ((l.hear w'.nc w'.link.ptd).outcome l (w'.sent es)).2 := by
  rw [h.nc, h.link]
  exact ⟨rfl, (h.sent es).heard hu (hear_of l w'.nc w'.link.ptd) hdone
    (fun v hv => absurd hv (hl v)) hlost⟩

theorem Sees.cb_exec (h : Sees used own lost w w') (hu : ∀ a, own.bytes a → used a) (c : CbReq)
    (hk : w'.link.connected = true → c.KeepsTo own w')
    (hlost : (c.exec.run w').1 = .ok (-1) → lost) :
    (c.exec.run w).1 = (c.exec.run w').1 ∧
      Goes used own lost w.store (c.exec.run w).2 (c.exec.run w').2 := by
  cases hc : w'.link.connected with
  | false =>
    rw [run_cb_closed (by rw [h.link, hc]), run_cb_closed hc]
    exact ⟨rfl, h.goes⟩
  | true =>
  replace hk := hk hc
  have hpayload := h.store.load hk.payload
  rw [run_cb_open hc] at hlost ⊢
  rw [run_cb_open (by rw [h.link, hc])]
  cases c with
  | transaction t =>
    obtain ⟨hret, hgoes⟩ := h.proceed hu t hk fun abort habort => hlost (by
      simp only [CbReq.proceed, habort]
      rfl)
    exact ⟨congrArg (Except.map Prod.fst) hret, hgoes⟩
  | txNoWait s packet | txv2NoWait s packet =>
    simp only [CbReq.payload, World.store] at hpayload
    simp only [CbReq.proceed, CbReq.spoken, CbReq.message, hpayload]
    exact ⟨trivial, (h.sent _).goes⟩
  | waitNoWait s => exact ⟨rfl, (h.sent _).goes⟩
  | pickTxresp d =>
    simp only [CbReq.proceed, pickTx, h.link]
    cases split (sizeof PcHeader) w'.link.ptd with
    | none => exact ⟨rfl, (h.cut _).goes⟩
    | some r => exact ⟨rfl, (h.took _ _).finish hu hk.done _ _ _⟩
  | rssi s d | rssiv2 s d =>
    exact h.answered hu (l := .rssi d) (by simp) hk.done _ hlost
  | wait s => exact h.answered hu (l := .wait) (by simp) hk.done _ hlost
  | pickWait =>
    have hlog : ∀ w : World, w = w.sent [] := fun w => by simp [World.sent, PbDevState.add]
    have hwait := h.answered hu (l := .wait) (by simp) hk.done [] (by rwa [← hlog])
    rwa [← hlog, ← hlog] at hwait

-- ---------------------------------------------------------------------------
-- Whole programs
-- ---------------------------------------------------------------------------

theorem Sees.act (h : Sees used own lost w w') (hu : ∀ a, own.bytes a → used a) (a : DevAct)
    (hk : a.KeepsTo own w') (hlost : ∀ rets, (a.exec w').1 = .ok rets → -1 ∈ rets → lost) :
    (a.exec w).1 = (a.exec w').1 ∧ Goes used own lost w.store (a.exec w).2 (a.exec w').2 := by
  have hret : ∀ {r : Except Stop Int32}, (∀ rets, r.map ([·]) = .ok rets → -1 ∈ rets → lost) →
      r = .ok (-1) → lost := by
    rintro r hr rfl
    exact hr [-1] rfl (by simp)
  cases a with
  | call c =>
    cases c with
    | nc c =>
      obtain ⟨hr, hgoes⟩ := h.nc_exec hu c hk (hret hlost)
      exact ⟨congrArg (Except.map ([·])) hr, hgoes⟩
    | cb c =>
      obtain ⟨hr, hgoes⟩ := h.cb_exec hu c hk (hret hlost)
      exact ⟨congrArg (Except.map ([·])) hr, hgoes⟩
    | disconnect => exact ⟨rfl, (h.setLink pbDevDisconnect).goes⟩
    | terminate => exact ⟨rfl, (h.setLink pbDevTerminate).goes⟩
  | initCom i =>
    have hinit : ∀ d n p, Sees used own lost { w with link := (pbDevInitCom d n p w.link).2 }
        { w' with link := (pbDevInitCom d n p w'.link).2 } := fun d n p =>
      h.setLink fun l => (pbDevInitCom d n p l).2
    have hsame : ∀ d n p, (.ok [(pbDevInitCom d n p w.link).1] : Except Stop (List Int32)) =
        .ok [(pbDevInitCom d n p w'.link).1] := fun d n p => by rw [h.link]
    cases i with
    | comSNc d n p => exact ⟨hsame d n p, (hinit d n p).goes⟩
    | comNc d n p => exact ⟨hsame d n p, ((hinit d n p).setOngoing .nothing).goes⟩
    | comSC d n p abortF =>
      have hi := hinit d n p
      exact ⟨hsame d n p, ⟨hi.link, hi.nc, rfl, hi.calls, hi.store⟩, .refl _ _⟩
  | phy bs => exact ⟨rfl, (h.setLink fun l => { l with ptd := l.ptd ++ bs }).goes⟩
  | write p bs => exact ⟨rfl, h.stored hu hk⟩
  | point q a =>
    exact ⟨rfl, ⟨h.link, h.nc, h.abortF, h.calls, h.store.point q a⟩, Frame.point hk a⟩

end

-- ---------------------------------------------------------------------------
-- All devices together
-- ---------------------------------------------------------------------------

section
variable {ι : Type} [DecidableEq ι] {own : ι → Region} {p t t' : Process ι}

def everyone (own : ι → Region) : Region where
  bytes a := ∃ i, (own i).bytes a
  vars q := ∃ i, (own i).vars q

def Keeps (own : ι → Region) (a : ι × DevAct) (p : Process ι) : Prop :=
  a.2.KeepsTo (own a.1) (p.world a.1) ∧ (Process.exec a p).stop = none

/-- To the device `i` the program `p` is as `t`, in which it may be alone. Packets in
new blocks are the same unless a call returned -1. -/
structure AsAlone (own : ι → Region) (i : ι) (p t : Process ι) : Prop where
  sees : Sees (everyone own).bytes (own i) (-1 ∈ t.rets i) (p.world i) (t.world i)
  rets : p.rets i = t.rets i
  running : p.stop = none ∧ t.stop = none

theorem exec_ok {a : ι × DevAct} (hp : p.stop = none)
    (hr : (a.2.exec (p.world a.1)).1 = .ok rets) :
    Process.exec a p = { p.setWorld a.1 (a.2.exec (p.world a.1)).2 with
      rets := Function.update p.rets a.1 (p.rets a.1 ++ rets) } := by
  simp only [Process.exec, hp, Option.isSome_none, Bool.false_eq_true, if_false, hr]

theorem exec_returned {a : ι × DevAct} (hp : p.stop = none)
    (h : (Process.exec a p).stop = none) : ∃ rets, (a.2.exec (p.world a.1)).1 = .ok rets := by
  cases hr : (a.2.exec (p.world a.1)).1 with
  | ok rets => exact ⟨rets, rfl⟩
  | error e => simp [Process.exec, hp, hr] at h

/-- What one device does, next to what it does alone. -/
theorem AsAlone.step {a : ι × DevAct} (h : AsAlone own a.1 p t) (hk : Keeps own a t) :
    AsAlone own a.1 (Process.exec a p) (Process.exec a t) ∧
      Frame (own a.1) p.store (Process.exec a p).store := by
  obtain ⟨rets, hrets⟩ := exec_returned h.running.2 hk.2
  have ht := exec_ok h.running.2 hrets
  have hnow : (Process.exec a t).rets a.1 = t.rets a.1 ++ rets := by simp [ht]
  have hsees : Sees (everyone own).bytes (own a.1) (-1 ∈ (Process.exec a t).rets a.1)
      (p.world a.1) (t.world a.1) := by
    refine ⟨h.sees.link, h.sees.nc, h.sees.abortF, h.sees.calls, h.sees.store.mono fun hl => ?_⟩
    rw [hnow]
    exact List.mem_append_left _ hl
  have hlost : ∀ rets', (a.2.exec (t.world a.1)).1 = .ok rets' → -1 ∈ rets' →
      -1 ∈ (Process.exec a t).rets a.1 := by
    rintro rets' hr hmem
    obtain rfl : rets = rets' := Except.ok.inj (hrets.symm.trans hr)
    rw [hnow]
    exact List.mem_append_right _ hmem
  obtain ⟨hr, hgoes⟩ := hsees.act (fun b hb => ⟨a.1, hb⟩) a.2 hk.1 hlost
  have hp := exec_ok h.running.1 (hr.trans hrets)
  refine ⟨⟨?_, ?_, ?_⟩, ?_⟩
  · have hworld : ∀ {p : Process ι} {rets : ι → List Int32} {w : World},
        Process.world a.1 { p.setWorld a.1 w with rets } = w := by
      intro p rets w
      simp only [Process.world, Process.setWorld, Function.update_self]
      rfl
    have hsame := hgoes.sees
    rw [hp, ht] at *
    rw [hworld, hworld]
    exact hsame
  · rw [hnow, hp]
    simp [h.rets]
  · exact ⟨by rw [hp]; exact h.running.1, hk.2⟩
  · rw [hp]
    exact hgoes.frame

/-- What another device does. -/
theorem AsAlone.beside (hap : ∀ i j, i ≠ j → Apart (own i) (own j)) {a : ι × DevAct}
    (hi : a.1 ≠ i) (h : AsAlone own i p t) (h' : AsAlone own a.1 p t') (hk : Keeps own a t') :
    AsAlone own i (Process.exec a p) t := by
  obtain ⟨hstep, hframe⟩ := h'.step hk
  have hin : ∀ j b, (own j).bytes b → (everyone own).bytes b := fun j b hb => ⟨j, hb⟩
  have hstore := h.sees.store.of_frame (hin i) (hin a.1) (hap i a.1 (Ne.symm hi)) hframe
  obtain ⟨rets, hrets⟩ := exec_returned h.running.1 hstep.running.1
  have hp := exec_ok h.running.1 hrets
  have hdev : (Process.exec a p).dev i = p.dev i := by
    rw [hp]
    exact Function.update_of_ne (Ne.symm hi) _ _
  refine ⟨⟨?_, ?_, ?_, ?_, hstore⟩, ?_, hstep.running.1, h.running.2⟩
  · exact (congrArg Dev.link hdev).trans h.sees.link
  · exact (congrArg Dev.nc hdev).trans h.sees.nc
  · exact (congrArg Dev.abortF hdev).trans h.sees.abortF
  · exact (congrArg Dev.calls hdev).trans h.sees.calls
  · rw [hp, ← h.rets]
    exact Function.update_of_ne (Ne.symm hi) _ _

theorem devices_unwind (hap : ∀ i j, i ≠ j → Apart (own i) (own j)) :
    Unwinds Prod.fst Process.exec (AsAlone own) (Keeps own) where
  own _ _ _ h hk := (h.step hk).1
  other _ _ _ _ _ hi h h' hk := h.beside hap hi h' hk

/-- Whatever the order in which a program acts as its devices, each does what it does
alone, if alone it keeps to a region of its own; all else in the memory is left alone. -/
theorem devices_apart (hap : ∀ i j, i ≠ j → Apart (own i) (own j)) (hp : p.stop = none)
    (hheap : ∀ a, (everyone own).bytes a → Allocated p.store.heap a)
    (as : List (ι × DevAct))
    (hk : ∀ i, Along Process.exec (Keeps own) (purge Prod.fst i as) p) :
    (∀ i, AsAlone own i (run Process.exec as p) (run Process.exec (purge Prod.fst i as) p)) ∧
      Frame (everyone own) p.store (run Process.exec as p).store := by
  have hstart : ∀ i, AsAlone own i p p := fun i =>
    ⟨⟨rfl, rfl, rfl, rfl, .refl hheap⟩, rfl, hp, hp⟩
  have hframe : ∀ (a : ι × DevAct) (s t : Process ι), Frame (everyone own) p.store s.store →
      AsAlone own a.1 s t → Keeps own a t →
      Frame (everyone own) p.store (Process.exec a s).store := by
    intro a s t hs h hk
    exact hs.trans ((h.step hk).2.mono (fun b hb => ⟨a.1, hb⟩) fun q hq => ⟨a.1, hq⟩)
  refine ⟨alike_alone (devices_unwind hap) hstart hk, ?_⟩
  exact kept_from (devices_unwind hap) hframe hstart hk (.refl _ _)

end

end PhyCom2G4

namespace PhyCom2G4

open Bytes Memory Regions Runs Unwinding

attribute [local instance] LibPhyCom.posix

/-- With both states of the library: a blocking reception, between the two halves of one
without callbacks. Both packets go to new blocks. -/
theorem devices_apart_static :
    let own : Static → Region := fun
      | .c2G4DevSt => ⟨InRange 0 100, (· = 0)⟩
      | .c2G4DevStNc => ⟨InRange 100 100, (· = 1)⟩
    let s : Store := ⟨fun _ => 0, fun _ => 0, [(0, 200)]⟩
    let p : Process Static := ⟨fun _ => .init, fun _ => [], s, none⟩
    let found := (PhyMsg.addressfound .v1 (parse [0, 0, 2, 0]) ⟨[7, 9], rfl⟩).write
    let rxEnd := (PhyMsg.rxEnd .v1 (parse [])).write
    let as : List (Static × DevAct) := [(.c2G4DevSt, .initCom (.comSC 0 "s" "p" none)),
      (.c2G4DevStNc, .initCom (.comNc 1 "s" "p")), (.c2G4DevStNc, .phy found),
      (.c2G4DevStNc, .call (.nc (.rx (parse []) 108 1 0))), (.c2G4DevSt, .phy (found ++ rxEnd)),
      (.c2G4DevSt, .call (.cb (.transaction (.rx (parse []) 8 0 0 (some fun _ _ _ => 1))))),
      (.c2G4DevStNc, .phy rxEnd), (.c2G4DevStNc, .call (.nc (.rxCont true)))]
    (∀ i, AsAlone own i (run Process.exec as p) (run Process.exec (purge Prod.fst i as) p)) ∧
      Frame (everyone own) p.store (run Process.exec as p).store := by
  intro own s p found rxEnd as
  have hnil : ∀ p a, ¬ InRange p 0 a := fun p a ha => by have := ha.1; have := ha.2; omega
  have hnone : ∀ i p {n : Nat}, n = 0 → Owns (own i) p n := by
    rintro i p n rfl a ha
    exact absurd ha (hnil p a)
  have hin : ∀ {b m p n : Nat} {v : Addr → Prop}, b ≤ p → p + n ≤ b + m →
      Owns ⟨InRange b m, v⟩ p n := fun h h' a ha =>
    ⟨Nat.le_trans h ha.1, Nat.lt_of_lt_of_le ha.2 h'⟩
  refine devices_apart ?_ rfl ?_ as ?_
  · rintro (_ | _) (_ | _) h
    · exact absurd rfl h
    · exact ⟨fun a ha hb => by have := ha.2; have := hb.1; omega,
        fun q (hq : q = 0) (hq' : q = 1) => absurd (hq.symm.trans hq') (by decide)⟩
    · exact ⟨fun a ha hb => by have := hb.2; have := ha.1; omega,
        fun q (hq : q = 1) (hq' : q = 0) => absurd (hq.symm.trans hq') (by decide)⟩
    · exact absurd rfl h
  · rintro a ⟨_ | _, ha⟩
    · exact ⟨(0, 200), by simp [p, s], by have := ha.1; have := ha.2; constructor <;> omega⟩
    · exact ⟨(0, 200), by simp [p, s], by have := ha.1; have := ha.2; constructor <;> omega⟩
  · rintro (_ | _)
    · refine ⟨⟨trivial, by decide +kernel⟩, ⟨trivial, by decide +kernel⟩,
        ⟨fun _ => ⟨hnone .c2G4DevSt _ rfl, hin (by decide) (by decide), ?_, ?_⟩,
          by decide +kernel⟩, trivial⟩
      · rintro t r ht hr
        cases ht
        cases hr
        exact ⟨rfl, hnone .c2G4DevSt _ rfl⟩
      · rintro t r ht hr - a ha
        cases ht
        cases hr
        exact absurd ha (hnil _ a)
    · refine ⟨⟨trivial, by decide +kernel⟩, ⟨trivial, by decide +kernel⟩,
        ⟨fun _ _ => ⟨hnone .c2G4DevStNc _ rfl, ?_, ?_⟩, by decide +kernel⟩,
        ⟨trivial, by decide +kernel⟩,
        ⟨fun _ _ => ⟨hnone .c2G4DevStNc _ rfl, ?_, ?_⟩, by decide +kernel⟩, trivial⟩
      · rintro l hl
        cases hl
        exact hin (by decide +kernel) (by decide +kernel)
      · exact fun v hv => ⟨by decide +kernel, hnone .c2G4DevStNc _ (by decide +kernel)⟩
      · rintro l hl
        cases hl
        exact hin (by decide +kernel) (by decide +kernel)
      · exact fun v hv => ⟨by decide +kernel, hnone .c2G4DevStNc _ (by decide +kernel)⟩

/-- A packet over the size in its own done structure: the callback looks at what the other
device wrote. -/
example :
    let p : Process Static := ⟨fun _ => .init, fun _ => [], ⟨fun _ => 0, fun _ => 76, [(0, 200)]⟩,
      none⟩
    let found := (PhyMsg.addressfound .v1 (parse [0, 0, 2, 0]) ⟨[100, 0], rfl⟩).write
    let eval : DeviceEvalRxF := fun _ _ packet => if packet[80]? = some 1 then 1 else 0
    let as : List (Static × DevAct) := [(.c2G4DevSt, .initCom (.comSC 0 "s" "p" none)),
      (.c2G4DevStNc, .write 156 [1]),
      (.c2G4DevSt, .phy (found ++ (PhyMsg.rxEnd .v1 (parse [])).write)),
      (.c2G4DevSt, .call (.cb (.transaction (.rx (parse []) 74 0 2 (some eval)))))]
    (run Process.exec as p).rets .c2G4DevSt = [0, msgRxEnd.toInt32] ∧
      (run Process.exec (purge Prod.fst .c2G4DevSt as) p).rets .c2G4DevSt =
        [0, msgRxAddressfound.toInt32] := by
  decide +kernel

end PhyCom2G4
