import PhyCom2G4.Failures

/-!
# A transaction driven step by step

What a blocking call does can also be done by a device that drives the family
without callbacks itself (`Transaction.driver`): it keeps the request's abort
structure, asks the same callbacks and hands their answers on with the call
that each return value asks for. Two worlds are twins if they differ in
nothing but the state of that family and the writes before some point; each
step takes twins to twins, and so do the re-evaluations of a wait, however
many there are (`drive_rounds`).
-/

namespace PhyCom2G4

open Bytes Memory Program Program.Prog LibPhyCom

variable [LibPhyCom]

-- ---------------------------------------------------------------------------
-- The driver
-- ---------------------------------------------------------------------------

def Transaction.request : Transaction → NcReq
  | .tx txS packet txDoneS => .tx txS packet txDoneS
  | .txv2 txS packet txDoneS => .txv2 txS packet txDoneS
  | .tx2v1 txS packet txDoneS => .tx2v1 txS packet txDoneS
  | .cca ccaS ccaDoneS => .cca ccaS ccaDoneS
  | .ccav2 ccaS ccaDoneS => .ccav2 ccaS ccaDoneS
  | .rx rxS rxDoneS rxBuf bufSize _ => .rx rxS rxDoneS rxBuf bufSize
  | .rxv2 rxS phyAddr rxDoneS rxBuf bufSize _ => .rxv2 rxS phyAddr rxDoneS rxBuf bufSize
  | .rx2v1 rxS phyAddr rxDoneS rxBuf bufSize _ => .rx2v1 rxS phyAddr rxDoneS rxBuf bufSize

def Transaction.provideNewAbort (abort : Abort) : Transaction → NcReq
  | .tx .. | .txv2 .. | .tx2v1 .. => .newTxAbort abort
  | .cca .. | .ccav2 .. => .newCcaAbort abort
  | .rx .. => .newRxAbort abort
  | .rxv2 .. | .rx2v1 .. => .newRxv2Abort abort

def RxVersion.contAfterAddr (devAccepts : Bool) (abort : Abort) : RxVersion → NcReq
  | .v1 => .rxCont devAccepts
  | .v2 => .rxv2Cont devAccepts abort

/-- Goes on from the last return value, `abort` being the device's copy of the
abort structure. -/
def Transaction.drive (t : Transaction) : Nat → Int32 → Abort → M (Int32 × Abort)
  | 0, _, _ => traceError "out of fuel"
  | fuel + 1, ret, abort =>
    if ret = msgAbortreeval.toInt32 then do
      let (_, abort) ← askAbortF abort
      let ret ← (t.provideNewAbort abort).exec
      t.drive fuel ret abort
    else match t.reception with
      | some r =>
        if ret = r.v.addressfound.toInt32 then do
          let acceptPacket ← evalRx r.v t.doneS r.rxBuf r.devRxevalF
          let ret ← (r.v.contAfterAddr (acceptPacket ≠ 0) abort).exec
          t.drive fuel ret abort
        else pure (ret, abort)
      | none => pure (ret, abort)

/-- Each turn comes after a header that was read, so that the stream's length is
fuel enough. -/
def Transaction.driver (t : Transaction) : M (Int32 × Abort) := do
  let w ← get
  let ret ← t.request.exec
  t.drive (w.link.ptd.length + 1) ret t.abort

-- ---------------------------------------------------------------------------
-- Twins
-- ---------------------------------------------------------------------------

/-- The same world, but for the state of the family without callbacks and the
first part of the log, `before` here and `before'` there. -/
structure Twin (before before' : List Event) (w w' : World) : Prop where
  connected : w'.link.connected = w.link.connected
  ptd : w'.link.ptd = w.link.ptd
  log : ∃ es, w.link.log = before ++ es ∧ w'.link.log = before' ++ es
  abortF : w'.abortF = w.abortF
  mem : w'.mem = w.mem
  ptr : w'.ptr = w.ptr
  heap : w'.heap = w.heap
  calls : w'.calls = w.calls

namespace Twin

variable {b b' : List Event} {w w' : World}

theorem refl (w : World) : Twin w.link.log w.link.log w w :=
  ⟨rfl, rfl, ⟨[], by simp⟩, rfl, rfl, rfl, rfl, rfl⟩

theorem log_append (h : Twin b b' w w') (es : List Event) :
    ∃ es', w.link.log ++ es = b ++ es' ∧ w'.link.log ++ es = b' ++ es' := by
  obtain ⟨es', hl, hl'⟩ := h.log
  exact ⟨es' ++ es, by rw [hl, List.append_assoc], by rw [hl', List.append_assoc]⟩

theorem setNc (h : Twin b b' w w') (nc : DevStateNc) : Twin b b' w { w' with nc } :=
  ⟨h.connected, h.ptd, h.log, h.abortF, h.mem, h.ptr, h.heap, h.calls⟩

theorem took (h : Twin b b' w w') (n : Nat) (rest : List Byte) :
    Twin b b' (w.took n rest) (w'.took n rest) :=
  ⟨h.connected, rfl, h.log_append _, h.abortF, h.mem, h.ptr, h.heap, h.calls⟩

theorem cut (h : Twin b b' w w') (n : Nat) : Twin b b' (w.cut n) (w'.cut n) := by
  refine ⟨rfl, rfl, ?_, h.abortF, h.mem, h.ptr, h.heap, h.calls⟩
  simpa using h.log_append [.read n, .closed]

theorem stored (h : Twin b b' w w') (p : Addr) (bs : List Byte) :
    Twin b b' (w.stored p bs) (w'.stored p bs) :=
  ⟨h.connected, h.ptd, h.log, h.abortF, congrArg (store · p bs) h.mem, h.ptr, h.heap, h.calls⟩

theorem sent (h : Twin b b' w w') (es : List Event) : Twin b b' (w.sent es) (w'.sent es) :=
  ⟨h.connected, h.ptd, h.log_append es, h.abortF, h.mem, h.ptr, h.heap, h.calls⟩

theorem shut (h : Twin b b' w w') (es : List Event) : Twin b b' (w.shut es) (w'.shut es) := by
  refine ⟨rfl, h.ptd, ?_, h.abortF, h.mem, h.ptr, h.heap, h.calls⟩
  simpa using h.log_append (es ++ [.closed])

theorem called (h : Twin b b' w w') (calls : List Callback) :
    Twin b b' { w with calls } { w' with calls } :=
  ⟨h.connected, h.ptd, h.log, h.abortF, h.mem, h.ptr, h.heap, rfl⟩

theorem buffered (h : Twin b b' w w') (rxBuf : Addr) (bufSize n : Nat) :
    Twin b b' (w.buffered rxBuf bufSize n) (w'.buffered rxBuf bufSize n) := by
  unfold World.buffered
  split
  · refine ⟨h.connected, h.ptd, h.log, h.abortF, h.mem, ?_, ?_, h.calls⟩ <;>
      simp [World.malloced, h.ptr, h.heap]
  · exact h

theorem picked (h : Twin b b' w w') (rxBuf : Addr) (bufSize : Nat) (packet rest : List Byte) :
    Twin b b' (w.picked rxBuf bufSize packet rest) (w'.picked rxBuf bufSize packet rest) := by
  unfold World.picked
  split
  · exact h
  · have hb := h.buffered rxBuf bufSize packet.length
    dsimp only
    rw [hb.ptr]
    exact (hb.took _ _).stored _ _

theorem found (h : Twin b b' w w') (f : Found) (v : RxVersion) (doneS rxBuf : Addr)
    (bufSize : Nat) :
    Twin b b' (f.world v doneS rxBuf bufSize w) (f.world v doneS rxBuf bufSize w') := by
  cases f with
  | doneCut s => exact (h.cut _).stored _ _
  | tooBig done rest => exact ((h.took _ _).stored _ _).shut _
  | packetCut done s =>
    have hb := ((h.took v.sizeofDone s).stored doneS done).buffered rxBuf bufSize
      (v.packetSize done)
    simp only [Found.world]
    rw [hb.ptr]
    exact (hb.cut _).stored _ _
  | whole done packet rest => exact ((h.took _ _).stored _ _).picked _ _ _ _

theorem judged (h : Twin b b' w w') (r : Reception) (doneS : Addr) :
    r.accepts doneS w' = r.accepts doneS w ∧
      Twin b b' (r.judged doneS w) (r.judged doneS w') := by
  have hacc : r.accepts doneS w' = r.accepts doneS w := by
    simp only [Reception.accepts, h.mem, h.ptr, h.calls]
  refine ⟨hacc, ?_⟩
  unfold Reception.judged
  cases r.devRxevalF with
  | none => exact h
  | some f =>
    refine ⟨h.connected, h.ptd, h.log, h.abortF, h.mem, h.ptr, h.heap, ?_⟩
    simp only [hacc, h.mem, h.ptr, h.calls]

end Twin

-- ---------------------------------------------------------------------------
-- Re-evaluations
-- ---------------------------------------------------------------------------

def Transaction.listener : Transaction → Listener
  | .tx .. | .txv2 .. | .tx2v1 .. => .tx
  | .cca .. | .ccav2 .. => .cca
  | .rx .. => .rx .v1
  | .rxv2 .. | .rx2v1 .. => .rx .v2

def Transaction.hearing (t : Transaction) (fuel : Nat) (abort : Abort) : M (Int32 × Abort) := do
  let ret ← t.listener.listen
  t.drive fuel ret abort

/-- The call that answers a re-evaluation is let through after one, says the
answer and waits as the transaction does. -/
theorem provideNewAbort_spec (t : Transaction) (abort : Abort) :
    ∃ o, t.listener.reeval = some o ∧ (t.provideNewAbort abort).expects = some o ∧
      (t.provideNewAbort abort).listener = some t.listener ∧
      (∀ mem, (t.provideNewAbort abort).events mem = [.msg msgRerespAbortreeval (bytes abort)]) ∧
      ∀ nc, (t.provideNewAbort abort).notes nc = nc := by
  cases t <;> exact ⟨_, rfl, rfl, rfl, fun _ => rfl, fun _ => rfl⟩

section
variable {w w' : World} {b b' : List Event}

theorem run_hearing_reeval (t : Transaction) (hc : w.link.connected = true)
    (hs : w.link.ptd = bytes msgAbortreeval ++ rest) (fuel : Nat) (abort : Abort) :
    let a := asked w.abortF w.calls abort
    ∃ nc, (∃ o, nc = { w.nc with ongoing := o }) ∧
      (t.hearing (fuel + 1) abort).run w = (t.hearing fuel a.2.1).run
        { ({ w with calls := a.2.2 }.took (sizeof PcHeader) rest).sent
            [.msg msgRerespAbortreeval (bytes a.2.1)] with nc } := by
  obtain ⟨o, hre, hexp, hlis, hev, hnotes⟩ :=
    provideNewAbort_spec t (asked w.abortF w.calls abort).2.1
  refine ⟨_, ⟨o, rfl⟩, ?_⟩
  have hheed : t.listener.heed w.nc msgAbortreeval rest = .reeval rest :=
    if_pos ⟨by rw [hre]; rfl, rfl⟩
  rw [Transaction.hearing, run_bind, run_listen hc, hs, hear_bytes, hheed]
  simp only [Heard.outcome, Heard.ret, Heard.world, hre, Transaction.drive, if_true]
  rw [run_bind, run_askAbortF]
  simp only [World.setOngoing_abortF, World.took_abortF, World.setOngoing_calls, World.took_calls]
  rw [run_bind, run_exec_listen (by exact hc) _ ((passes_iff hexp).mpr rfl) hlis]
  simp only [NcReq.spoken, hev, hnotes]
  rw [Transaction.hearing, run_bind]
  rfl

/-- All re-evaluations of a wait: the twins are left at the header that ends it. -/
theorem drive_rounds (t : Transaction) (h : Twin b b' w w') (hc : w.link.connected = true)
    {W : Wait} (hW : await w.abortF w.calls abort w.link.ptd = W) (hgot : W.ending = .got hd s)
    (fuel : Nat) :
    ∃ w₁, (t.hearing (fuel + W.answers.length) abort).run w' = (t.hearing fuel W.abort).run w₁ ∧
      w₁.link.connected = true ∧ w₁.link.ptd = bytes hd ++ s ∧
      Twin b b' (W.world w) (w₁.took (sizeof PcHeader) s) ∧
      ∃ o, w₁.nc = { w'.nc with ongoing := o } := by
  have hstream := await_got (hW.symm ▸ hgot)
  rw [hW] at hstream
  obtain ⟨hne, hptd⟩ := hstream
  induction hn : W.answers generalizing w w' abort W with
  | nil =>
    rw [hn] at hptd
    have hfirst : W = ⟨[], w.calls, abort, .got hd s⟩ := by
      rw [← hW, hptd]
      exact (await_header (split_bytes hd s)).trans (by rw [parse_bytes, if_neg hne])
    subst hfirst
    refine ⟨w', rfl, by rw [h.connected, hc], by rw [h.ptd, hptd]; rfl, ?_, w'.nc.ongoing, rfl⟩
    rw [Wait.world_got rfl, answered_nil]
    exact h.took _ _
  | cons a answers ih =>
    rw [hn] at hptd
    have hs : w.link.ptd =
        bytes msgAbortreeval ++ (reevals answers.length ++ (bytes hd ++ s)) := by
      rw [hptd]
      simp [reevals, List.replicate_succ]
    generalize hrest : reevals answers.length ++ (bytes hd ++ s) = rest at hs
    have hstep : await w.abortF w.calls abort w.link.ptd = _ :=
      await_header (hs ▸ split_bytes msgAbortreeval rest)
    rw [parse_bytes, if_pos rfl, hW] at hstep
    by_cases hret : (asked w.abortF w.calls abort).1 = 0
    · rw [if_pos hret] at hstep
      obtain ⟨nc, ⟨o, hnc⟩, hrun⟩ := run_hearing_reeval t (w := w') (by rw [h.connected, hc])
        (by rw [h.ptd, hs]) (fuel + answers.length) abort
      have hasked : asked w'.abortF w'.calls abort = asked w.abortF w.calls abort := by
        rw [h.abortF, h.calls]
      rw [hasked] at hrun
      generalize asked w.abortF w.calls abort = a' at hstep hrun
      have htwin := (((h.called a'.2.2).took (sizeof PcHeader) rest).sent
        [.msg msgRerespAbortreeval (bytes a'.2.1)]).setNc nc
      generalize hW' : await w.abortF a'.2.2 a'.2.1 rest = W' at hstep
      subst hstep
      obtain rfl : W'.answers = answers := (List.cons.inj hn).2
      obtain ⟨w₁, hdrive, hc₁, hptd₁, htwin₁, o', hnc₁⟩ :=
        ih htwin hc hW' hgot (hrest.symm) rfl
      refine ⟨w₁, ?_, hc₁, hptd₁, ?_, o', ?_⟩
      · exact hrun.trans hdrive
      · rw [answered_cons W' a'.2.1 a'.2.2 rest]
        exact htwin₁
      · rw [hnc₁, hnc]
    · rw [if_neg hret] at hstep
      simp [hstep] at hn

end

end PhyCom2G4
