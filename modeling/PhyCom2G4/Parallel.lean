import PhyCom2G4.NcCalls

/-!
# Relations that calls keep

A call without callbacks looks at the link, the stream, its family's state, the
pointers and the bytes it sends. A relation under which two worlds have these in
common, and that is kept by each thing a call does to a world, is kept by every
call (`Parallel.exec`). `Elsewhere` is such a relation.
-/

namespace PhyCom2G4

open Bytes Memory Program Program.Prog LibPhyCom

variable [LibPhyCom]

structure Parallel (R : World → World → Prop) : Prop where
  connected : ∀ {w w'}, R w w' → w'.link.connected = w.link.connected
  ptd : ∀ {w w'}, R w w' → w'.link.ptd = w.link.ptd
  nc : ∀ {w w'}, R w w' → w'.nc = w.nc
  ptr : ∀ {w w'}, R w w' → w'.ptr = w.ptr
  took : ∀ {w w'} n rest, R w w' → R (w.took n rest) (w'.took n rest)
  cut : ∀ {w w'} n, R w w' → R (w.cut n) (w'.cut n)
  sent : ∀ {w w'} es, R w w' → R (w.sent es) (w'.sent es)
  shut : ∀ {w w'} es, R w w' → R (w.shut es) (w'.shut es)
  stored : ∀ {w w'} p bs, R w w' → R (w.stored p bs) (w'.stored p bs)
  malloced : ∀ {w w'} q n, R w w' → R (w.malloced q n) (w'.malloced q n)
  setNc : ∀ {w w'} (f : DevStateNc → DevStateNc), R w w' →
    R { w with nc := f w.nc } { w' with nc := f w'.nc }

namespace Parallel

variable {R : World → World → Prop} {w w' : World}

theorem setOngoing (hR : Parallel R) (h : R w w') (o : OngoingTransaction) :
    R (w.setOngoing o) (w'.setOngoing o) :=
  hR.setNc (fun nc => { nc with ongoing := o }) h

theorem clear (hR : Parallel R) (h : R w w') (l : Listener) : R (l.clear w) (l.clear w') := by
  cases l with
  | rssi | wait => exact h
  | _ => exact hR.setOngoing h _

theorem buffered (hR : Parallel R) (h : R w w') (rxBuf : Addr) (bufSize n : Nat) :
    R (w.buffered rxBuf bufSize n) (w'.buffered rxBuf bufSize n) := by
  unfold World.buffered
  split
  · exact hR.malloced _ _ h
  · exact h

theorem picked (hR : Parallel R) (h : R w w') (rxBuf : Addr) (bufSize : Nat)
    (packet rest : List Byte) :
    R (w.picked rxBuf bufSize packet rest) (w'.picked rxBuf bufSize packet rest) := by
  unfold World.picked
  split
  · exact h
  · have hb := hR.buffered h rxBuf bufSize packet.length
    dsimp only
    rw [hR.ptr hb]
    exact hR.stored _ _ (hR.took _ _ hb)

theorem found (hR : Parallel R) (h : R w w') (f : Found) (v : RxVersion) (doneS rxBuf : Addr)
    (bufSize : Nat) :
    R (f.world v doneS rxBuf bufSize w) (f.world v doneS rxBuf bufSize w') := by
  cases f with
  | doneCut s => exact hR.stored _ _ (hR.cut _ h)
  | tooBig done rest => exact hR.shut _ (hR.stored _ _ (hR.took _ _ h))
  | packetCut done s =>
    have hb := hR.buffered (hR.stored doneS done (hR.took v.sizeofDone s h)) rxBuf bufSize
      (v.packetSize done)
    simp only [Found.world]
    rw [hR.ptr hb]
    exact hR.stored _ _ (hR.cut _ hb)
  | whole done packet rest => exact hR.picked (hR.stored _ _ (hR.took _ _ h)) _ _ _ _

theorem judged (hR : Parallel R) (h : R w w') (f : Found) : R (f.judged w) (f.judged w') := by
  cases f with
  | whole => exact hR.setNc (fun nc => { nc with weGotAddress := true, ongoing := .rxHeaderEval }) h
  | _ => exact h

theorem heard (hR : Parallel R) (h : R w w') (l : Listener) (heard : Heard) :
    R (heard.world l w) (heard.world l w') := by
  cases heard with
  | cut => exact hR.cut _ h
  | reeval rest =>
    simp only [Heard.world]
    cases l.reeval with
    | some o => exact hR.setOngoing (hR.took _ _ h) o
    | none => exact hR.took _ _ h
  | found v f =>
    simp only [Heard.world, hR.nc h]
    exact hR.judged (hR.found (hR.took _ _ h) _ _ _ _ _) f
  | disconnect rest => exact hR.shut _ (hR.clear (hR.took _ _ h) l)
  | endCut hd s =>
    simp only [Heard.world, hR.nc h]
    exact hR.stored _ _ (hR.cut _ (hR.clear (hR.took _ _ h) l))
  | ended hd done rest =>
    have hclear := hR.clear (hR.took (sizeof PcHeader) (done ++ rest) h) l
    have hnc := hR.nc hclear
    cases l with
    | wait => exact hclear
    | _ =>
      simp only [Heard.world, World.tookDone, hnc]
      exact hR.stored _ _ (hR.took _ _ hclear)
  | invalid hd rest =>
    have hclear := hR.clear (hR.took (sizeof PcHeader) rest h) l
    cases l with
    | rx v => exact hR.took _ _ h
    | _ => exact hclear

theorem spoken (hR : Parallel R) (h : R w w') {c : NcReq} (he : c.events w'.mem = c.events w.mem) :
    R (c.spoken w) (c.spoken w') := by
  unfold NcReq.spoken
  rw [he]
  exact hR.setNc c.notes (hR.sent _ h)

theorem exec (hR : Parallel R) (h : R w w') {c : NcReq} (he : c.events w'.mem = c.events w.mem) :
    (c.exec.run w').1 = (c.exec.run w).1 ∧ R (c.exec.run w).2 (c.exec.run w').2 := by
  have hconn := hR.connected h
  have hnc := hR.nc h
  cases hc : w.link.connected with
  | false =>
    rw [run_exec_closed hc, run_exec_closed (hconn.trans hc)]
    exact ⟨rfl, h⟩
  | true =>
    have hc' := hconn.trans hc
    cases hp : c.passes w.nc with
    | false =>
      rw [run_exec_stopped hc c hp, run_exec_stopped hc' c (by rw [hnc, hp])]
      exact ⟨rfl, hR.setNc c.notesFirst h⟩
    | true =>
      have hspoken := hR.spoken h he
      rw [run_exec_open hc c hp, run_exec_open hc' c (by rw [hnc, hp])]
      unfold NcReq.proceed
      cases c.listener with
      | none => exact ⟨rfl, hR.setOngoing hspoken _⟩
      | some l =>
        rw [hnc, hR.ptd h]
        exact ⟨rfl, hR.heard hspoken l _⟩

end Parallel

-- ---------------------------------------------------------------------------
-- Worlds that differ in what was said, and aside
-- ---------------------------------------------------------------------------

/-- The first log has all of the second, and some `more` in between. -/
inductive Interspersed (more : List Event → Prop) : List Event → List Event → Prop
  | same (b : List Event) : Interspersed more b b
  | both (h : Interspersed more b b') (es : List Event) :
    Interspersed more (b ++ es) (b' ++ es)
  | more (h : Interspersed more b b') (hes : more es) : Interspersed more (b ++ es) b'

/-- The same but for what is stored aside, and what more was said. -/
structure Elsewhere (more : List Event → Prop) (aside : Addr → Prop) (w w' : World) : Prop where
  connected : w'.link.connected = w.link.connected
  ptd : w'.link.ptd = w.link.ptd
  log : Interspersed more w.link.log w'.link.log
  nc : w'.nc = w.nc
  abortF : w'.abortF = w.abortF
  mem : ∀ a, ¬ aside a → w'.mem a = w.mem a
  ptr : w'.ptr = w.ptr
  heap : w'.heap = w.heap
  calls : w'.calls = w.calls

section
variable {more : List Event → Prop} {aside : Addr → Prop} {w w' : World}

theorem Elsewhere.refl (more : List Event → Prop) (aside : Addr → Prop) (w : World) :
    Elsewhere more aside w w :=
  ⟨rfl, rfl, .same _, rfl, rfl, fun _ _ => rfl, rfl, rfl, rfl⟩

theorem Elsewhere.setLink (h : Elsewhere more aside w w') {l l' : PbDevState}
    (hconn : l'.connected = l.connected) (hptd : l'.ptd = l.ptd) (es : List Event)
    (hl : l.log = w.link.log ++ es) (hl' : l'.log = w'.link.log ++ es) :
    Elsewhere more aside { w with link := l } { w' with link := l' } := by
  refine ⟨hconn, hptd, ?_, h.nc, h.abortF, h.mem, h.ptr, h.heap, h.calls⟩
  rw [hl, hl']
  exact h.log.both es

theorem Elsewhere.fed (h : Elsewhere more aside w w') (bs : List Byte) :
    Elsewhere more aside { w with link := { w.link with ptd := w.link.ptd ++ bs } }
      { w' with link := { w'.link with ptd := w'.link.ptd ++ bs } } :=
  h.setLink h.connected (congrArg (· ++ bs) h.ptd) [] (by simp) (by simp)

theorem parallel_elsewhere (more : List Event → Prop) (aside : Addr → Prop) :
    Parallel (Elsewhere more aside) where
  connected h := h.connected
  ptd h := h.ptd
  nc h := h.nc
  ptr h := h.ptr
  took n rest h := h.setLink h.connected rfl [.read n] rfl rfl
  cut n h := h.setLink rfl rfl [.read n, .closed] (by simp) (by simp)
  sent es h := h.setLink h.connected h.ptd es rfl rfl
  shut es h := h.setLink rfl h.ptd (es ++ [.closed]) (by simp) (by simp)
  stored p bs h := by
    refine ⟨h.connected, h.ptd, h.log, h.nc, h.abortF, fun a ha => ?_, h.ptr, h.heap, h.calls⟩
    simp only [World.stored_mem, store, h.mem a ha]
  malloced q n h := by
    refine ⟨h.connected, h.ptd, h.log, h.nc, h.abortF, h.mem, ?_, ?_, h.calls⟩ <;>
      simp [World.malloced, h.ptr, h.heap]
  setNc f h :=
    ⟨h.connected, h.ptd, h.log, congrArg f h.nc, h.abortF, h.mem, h.ptr, h.heap, h.calls⟩

end

end PhyCom2G4
