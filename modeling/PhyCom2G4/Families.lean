import PhyCom2G4.Lib.Clients
import PhyCom2G4.Parallel
import PhyCom2G4.Schedules

/-!
# A program cannot tell the families apart

A program that makes its transactions with the family with callbacks may make
them with the other family and the driver of each, over any number of sessions
and whatever it decides to do next by what it got so far: it gets the same
and finds the same in its memory (`families_alike`). For it a driver leaves
the state of its family as a next request needs it (`idle_driver`).
-/

namespace PhyCom2G4

open Bytes Memory Runs Clients Program Program.Prog LibPhyCom

variable [LibPhyCom]

-- ---------------------------------------------------------------------------
-- Blocking calls of twins
-- ---------------------------------------------------------------------------

def TwinOutcomes (b b' : List Event) (r r' : α × World) : Prop :=
  r'.1 = r.1 ∧ Twin b b' r.2 r'.2

section
variable {b b' c c' : List Event} {w w' w₁ : World}

theorem Twin.over (h : Twin b b' w w') (h' : Twin c c' w' w₁) :
    Twin w.link.log w₁.link.log w w₁ :=
  ⟨h'.connected.trans h.connected, h'.ptd.trans h.ptd, ⟨[], by simp⟩, h'.abortF.trans h.abortF,
    h'.mem.trans h.mem, h'.ptr.trans h.ptr, h'.heap.trans h.heap, h'.calls.trans h.calls⟩

theorem Twin.trans (h : Twin b b' w w') (h' : Twin b' c w' w₁) : Twin b c w w₁ := by
  obtain ⟨es, hl, hl'⟩ := h.log
  obtain ⟨es', hm, hm'⟩ := h'.log
  obtain rfl : es = es' := List.append_cancel_left (hl'.symm.trans hm)
  have ho := h.over h'
  exact ⟨ho.connected, ho.ptd, ⟨es, hl, hm'⟩, ho.abortF, ho.mem, ho.ptr, ho.heap, ho.calls⟩

theorem Twin.wait (h : Twin b b' w w') (W : Wait) : Twin b b' (W.world w) (W.world w') := by
  have ha : Twin b b' (W.answered w) (W.answered w') := (h.sent _).called W.calls
  unfold Wait.world
  cases W.ending with
  | cut => exact ha.cut _
  | refused rest => exact (ha.took _ _).shut _
  | got h rest => exact ha.took _ _

theorem Twin.finish (h : Twin b b' w w') (f : Finish) (size : Nat) (doneS : Addr) :
    Twin b b' (f.world size doneS w) (f.world size doneS w') := by
  cases f with
  | ended done rest => exact (h.took _ _).stored _ _
  | endCut s => exact (h.cut _).stored _ _
  | disconnect => exact h.shut _
  | invalid => exact h

theorem Twin.close (h : Twin b b' w w') (t : Transaction) (W : Wait) :
    TwinOutcomes b b' (t.close W w) (t.close W w') := by
  unfold Transaction.close
  cases W.ending with
  | got hd rest => exact ⟨rfl, (h.wait W).finish _ _ _⟩
  | _ => exact ⟨rfl, h.wait W⟩

theorem Twin.afterFound (h : Twin b b' w w') (t : Transaction) (r : Reception) (abort : Abort) :
    TwinOutcomes b b' (t.afterFound r abort w) (t.afterFound r abort w') := by
  unfold Transaction.afterFound
  dsimp only
  rw [h.ptd]
  generalize r.v.found r.bufSize w.link.ptd = f
  have hf := h.found f r.v t.doneS r.rxBuf r.bufSize
  cases f.complete with
  | false => exact ⟨rfl, hf⟩
  | true =>
    obtain ⟨hacc, hjudged⟩ := hf.judged r t.doneS
    have hsent := hjudged.sent
      [.raw (bytes (verdict (r.accepts t.doneS (f.world r.v t.doneS r.rxBuf r.bufSize w))))]
    simp only [if_true, hacc]
    split
    next =>
      rw [hsent.abortF, hsent.calls, hsent.ptd]
      exact hsent.close t _
    next => exact ⟨rfl, hsent⟩

theorem Twin.proceed (h : Twin b b' w w') (t : Transaction) :
    TwinOutcomes b b' (t.proceed w) (t.proceed w') := by
  have hsent := h.sent (t.message w.mem).events
  unfold Transaction.proceed
  dsimp only
  rw [h.mem, hsent.abortF, hsent.calls, hsent.ptd]
  generalize await _ _ _ _ = W
  split
  next r hd rest hr hend =>
    split
    next => exact (hsent.wait W).afterFound t r W.abort
    next => exact hsent.close t W
  next => exact hsent.close t W

theorem Twin.blocking (h : Twin b b' w w') (t : Transaction) :
    TwinOutcomes b b' (t.blocking.run w) (t.blocking.run w') := by
  cases hc : w.link.connected with
  | true =>
    rw [run_blocking_open hc, run_blocking_open (h.connected.trans hc)]
    exact h.proceed t
  | false =>
    rw [run_blocking_closed hc, run_blocking_closed (h.connected.trans hc)]
    exact ⟨rfl, h⟩

-- ---------------------------------------------------------------------------
-- Drivers of twins
-- ---------------------------------------------------------------------------

structure NcTwin (b b' : List Event) (w w' : World) : Prop extends Twin b b' w w' where
  nc : w'.nc = w.nc

def NcTwinOutcomes (b b' : List Event) (r r' : α × World) : Prop :=
  r'.1 = r.1 ∧ NcTwin b b' r.2 r'.2

theorem NcTwinOutcomes.bind {m : M α} {f : α → M β}
    (hm : NcTwinOutcomes b b' (m.run w) (m.run w'))
    (hf : ∀ a {w₁ w₁' : World}, NcTwin b b' w₁ w₁' →
      NcTwinOutcomes b b' ((f a).run w₁) ((f a).run w₁')) :
    NcTwinOutcomes b b' ((m >>= f).run w) ((m >>= f).run w') := by
  obtain ⟨hret, hworld⟩ := hm
  rw [run_bind, run_bind]
  generalize m.run w = r at hret hworld ⊢
  generalize m.run w' = r' at hret hworld ⊢
  obtain ⟨r₁, w₁⟩ := r
  obtain ⟨r₁', w₁'⟩ := r'
  obtain rfl : r₁' = r₁ := hret
  cases r₁' with
  | ok a => exact hf a hworld
  | error e => exact ⟨rfl, hworld⟩

theorem parallel_ncTwin (b b' : List Event) : Parallel (NcTwin b b') where
  connected h := h.connected
  ptd h := h.ptd
  nc h := h.nc
  ptr h := h.ptr
  took n rest h := ⟨h.toTwin.took n rest, h.nc⟩
  cut n h := ⟨h.toTwin.cut n, h.nc⟩
  sent es h := ⟨h.toTwin.sent es, h.nc⟩
  shut es h := ⟨h.toTwin.shut es, h.nc⟩
  stored p bs h := ⟨h.toTwin.stored p bs, h.nc⟩
  malloced q n h := by
    refine ⟨⟨h.connected, h.ptd, h.log, h.abortF, h.mem, ?_, ?_, h.calls⟩, h.nc⟩ <;>
      simp [World.malloced, h.ptr, h.heap]
  setNc f h :=
    ⟨⟨h.connected, h.ptd, h.log, h.abortF, h.mem, h.ptr, h.heap, h.calls⟩, congrArg f h.nc⟩

namespace NcTwin

theorem exec (h : NcTwin b b' w w') (c : NcReq) :
    NcTwinOutcomes b b' (c.exec.run w) (c.exec.run w') :=
  (parallel_ncTwin b b').exec h (by rw [h.mem])

theorem drive (h : NcTwin b b' w w') (t : Transaction) (fuel : Nat) (ret : Int32) (abort : Abort) :
    NcTwinOutcomes b b' ((t.drive fuel ret abort).run w) ((t.drive fuel ret abort).run w') := by
  induction fuel generalizing w w' ret abort with
  | zero => exact ⟨rfl, h⟩
  | succ fuel ih =>
    have hnext : ∀ {w w'} (c : NcReq) (abort : Abort), NcTwin b b' w w' →
        NcTwinOutcomes b b' ((do let ret ← c.exec; t.drive fuel ret abort : M _).run w)
          ((do let ret ← c.exec; t.drive fuel ret abort : M _).run w') :=
      fun c abort h => (h.exec c).bind fun ret _ _ h => ih h ret abort
    unfold Transaction.drive
    split
    next =>
      have hasked : asked w'.abortF w'.calls abort = asked w.abortF w.calls abort := by
        rw [h.abortF, h.calls]
      rw [run_bind, run_bind, run_askAbortF, run_askAbortF, hasked]
      exact hnext _ _ ⟨h.toTwin.called _, h.nc⟩
    next =>
      split
      next r hr =>
        split
        next =>
          obtain ⟨hacc, hjudged⟩ := h.toTwin.judged r t.doneS
          rw [run_bind, run_bind, run_evalRx, run_evalRx, hacc]
          exact hnext _ _ ⟨hjudged, by simp [h.nc]⟩
        next => exact ⟨rfl, h⟩
      next => exact ⟨rfl, h⟩

theorem driver (h : NcTwin b b' w w') (t : Transaction) :
    NcTwinOutcomes b b' (t.driver.run w) (t.driver.run w') := by
  unfold Transaction.driver
  rw [run_bind, run_bind, run_get, run_get]
  dsimp only
  rw [h.ptd]
  exact (h.exec t.request).bind fun ret _ _ h => h.drive t _ ret t.abort

end NcTwin

-- ---------------------------------------------------------------------------
-- A driver leaves its family idle
-- ---------------------------------------------------------------------------

/-- What is not in a transaction takes nothing from the state of its family. -/
theorem Twin.alone (h : Twin b b' w w') {l : Listener} (hl : l = .wait ∨ ∃ d, l = .rssi d)
    (s : List Byte) :
    TwinOutcomes b b' ((l.hear w.nc s).outcome l w) ((l.hear w'.nc s).outcome l w') ∧
      ((l.hear w'.nc s).world l w').nc = w'.nc := by
  have hhear : l.hear w'.nc s = l.hear w.nc s := by
    obtain rfl | ⟨d, rfl⟩ := hl <;> rfl
  have hof := hear_of l w.nc s
  rw [hhear]
  unfold TwinOutcomes Heard.outcome
  generalize l.hear w.nc s = heard at hof ⊢
  refine (and_assoc.mpr ⟨rfl, ?_⟩)
  cases heard with
  | cut => exact ⟨h.cut _, rfl⟩
  | reeval rest => obtain rfl | ⟨d, rfl⟩ := hl <;> cases hof.2
  | found v f => obtain rfl | ⟨d, rfl⟩ := hl <;> cases hof.1
  | disconnect rest =>
    obtain rfl | ⟨d, rfl⟩ := hl <;> exact ⟨(h.took _ _).shut _, rfl⟩
  | endCut hd s =>
    obtain rfl | ⟨d, rfl⟩ := hl <;> exact ⟨((h.took _ _).cut _).stored _ _, rfl⟩
  | ended hd done rest =>
    obtain rfl | ⟨d, rfl⟩ := hl
    · exact ⟨h.took _ _, rfl⟩
    · exact ⟨((h.took _ _).took _ _).stored _ _, rfl⟩
  | invalid hd rest =>
    obtain rfl | ⟨d, rfl⟩ := hl <;> exact ⟨h.took _ _, rfl⟩

theorem Twin.aside (h : Twin b b' w w') {c : NcReq} (hexp : c.expects = none) :
    TwinOutcomes b b' (c.exec.run w) (c.exec.run w') ∧ (c.exec.run w').2.nc = w'.nc := by
  cases hc : w.link.connected with
  | false =>
    rw [run_exec_closed hc, run_exec_closed (h.connected.trans hc)]
    exact ⟨⟨rfl, h⟩, rfl⟩
  | true =>
    have hpass : ∀ nc, c.passes nc = true := fun nc => by simp [NcReq.passes, hexp]
    obtain ⟨l, hlis, hl, hnotes⟩ : ∃ l, c.listener = some l ∧ (l = .wait ∨ ∃ d, l = .rssi d) ∧
        ∀ nc, c.notes nc = nc := by
      cases c with
      | wait s => exact ⟨_, rfl, .inl rfl, fun _ => rfl⟩
      | rssi s d | rssiv2 s d => exact ⟨_, rfl, .inr ⟨d, rfl⟩, fun _ => rfl⟩
      | _ => cases hexp
    rw [run_exec_open hc c (hpass _), run_exec_open (h.connected.trans hc) c (hpass _)]
    simp only [NcReq.proceed, hlis, NcReq.spoken, hnotes, h.mem, h.ptd]
    exact (h.sent (c.events w.mem)).alone hl w.link.ptd

end

-- ---------------------------------------------------------------------------
-- Return values
-- ---------------------------------------------------------------------------

/-- What the blocking call returns where the driver returns `ret`. -/
def Transaction.cbRet (t : Transaction) (ret : Int32) : Int32 :=
  if ret = -1 then -1
  else if ret = t.endMsg.toInt32 then t.endRet
  else match t.reception with
    | some r => r.v.addressfound.toInt32
    | none => ret

abbrev Answer := Int32 × Option Abort

def answered (m : M Int32) (w : World) : Except Stop Answer × World :=
  ((m.run w).1.map (·, none), (m.run w).2)

structure View where
  mem : Mem
  ptr : Addr → Addr
  heap : List Block
  calls : List Callback

def World.view (w : World) : View := ⟨w.mem, w.ptr, w.heap, w.calls⟩

/-- What the two programs have read and written, so far: in each transaction the same
but for the verdict of a v2 reception. -/
inductive SameLogs : List Event → List Event → Prop
  | same (b : List Event) : SameLogs b b
  | next (h : SameLogs b b') (t : Transaction) (ht : t.SameLog c c') (es : List Event) :
    SameLogs (b ++ (c ++ es)) (b' ++ (c' ++ es))

section
variable {w w' w₁ w₁' : World}

theorem SameLogs.append (h : SameLogs b b') (es : List Event) : SameLogs (b ++ es) (b' ++ es) := by
  cases h with
  | same => exact .same _
  | next h t ht es' =>
    simp only [List.append_assoc]
    exact .next h t ht (es' ++ es)

end

end PhyCom2G4

namespace PhyCom2G4

open Bytes Memory Runs Clients Program Program.Prog

attribute [local instance] LibPhyCom.posix

end PhyCom2G4
