import PhyCom2G4.Interference
import PhyCom2G4.Parallel

/-!
# Re-evaluations leave no trace

The phy may ask for a new abort structure any number of times before it ends what a
call waits for. With the right call to answer each, the last of these calls returns
what the first would have, had the phy not asked, and so does every call after them
(`reevaluations_left_out`).
-/

namespace PhyCom2G4

open Bytes Memory Runs Program Program.Prog LibPhyCom

variable [LibPhyCom]

def NcReq.Answers (l : Listener) (c : NcReq) : Prop :=
  ∃ o, l.reeval = some o ∧ c.expects = some o ∧ c.listener = some l

/-- A call, those that answer its re-evaluations, and what the phy writes in the end. -/
structure Asked where
  call : NcReq
  answers : List NcReq
  bs : List Byte

/-- The call, re-evaluated once for each answer; it returns what the last does. -/
def NcReq.execAsked : NcReq → List NcReq → List Byte → World → Except Stop Int32 × World
  | c, [], bs, w => c.exec.run (w.ahead bs)
  | c, r :: rs, bs, w => r.execAsked rs bs (c.exec.run (w.ahead (bytes msgAbortreeval))).2

def Asked.exec (i : Asked) (w : World) : Except Stop Int32 × World :=
  i.call.execAsked i.answers i.bs w

def Asked.execOnce (i : Asked) (w : World) : Except Stop Int32 × World :=
  i.call.exec.run (w.ahead i.bs)

/-- A call that is asked waits for nothing but the phy's next words, and what ends its wait
does not stop the device. -/
structure Asked.Waits (i : Asked) (w : World) (l : Listener) : Prop where
  connected : w.link.connected = true
  passes : i.call.passes w.nc = true
  listener : i.call.listener = some l
  nothing : w.link.ptd = []
  answers : ∀ r ∈ i.answers, r.Answers l
  valid : ∀ h rest, l.hear (i.call.notes w.nc) i.bs ≠ .invalid h rest

def Asked.Proper (i : Asked) (w : World) : Prop := i.answers = [] ∨ ∃ l, i.Waits w l

def ReevalEvents (es : List Event) : Prop :=
  ∃ abort : Abort, es = [.read (sizeof PcHeader), .msg msgRerespAbortreeval (bytes abort)]

/-- The same but for re-evaluations, and but for `ongoing` once the link is closed. -/
def Unasked (w w' : World) : Prop :=
  Elsewhere ReevalEvents (fun _ => False) w w' ∨
    w.link.connected = false ∧
      Elsewhere ReevalEvents (fun _ => False) w (w'.setOngoing w.nc.ongoing)

-- ---------------------------------------------------------------------------
-- A wait does not look at `ongoing`
-- ---------------------------------------------------------------------------

section
variable {l : Listener} {w w' : World} {c : NcReq} {rs : List NcReq} {bs : List Byte}

theorem answers_spec (h : c.Answers l) :
    (∃ abort : Abort, ∀ mem, c.events mem = [.msg msgRerespAbortreeval (bytes abort)]) ∧
      ∀ nc, c.notes nc = nc := by
  obtain ⟨o, hre, hexp, hlis⟩ := h
  cases c with
  | newTxAbort abort | newCcaAbort abort | newRxAbort abort | newRxv2Abort abort =>
    exact ⟨⟨abort, fun _ => rfl⟩, fun _ => rfl⟩
  | immRSSI s d =>
    cases hlis
    cases hre
  | _ =>
    cases hexp
    try cases l <;> cases hre

theorem setOngoing_self (h : w.nc.ongoing = o) : w.setOngoing o = w := by
  subst h
  rfl

theorem hear_ongoing (l : Listener) (nc : DevStateNc) (o : OngoingTransaction) (s : List Byte) :
    l.hear { nc with ongoing := o } s = l.hear nc s := by
  cases l <;> rfl

theorem found_setOngoing (f : Found) (v : RxVersion) (doneS rxBuf : Addr) (bufSize : Nat)
    (o : OngoingTransaction) :
    f.world v doneS rxBuf bufSize (w.setOngoing o) =
      (f.world v doneS rxBuf bufSize w).setOngoing o := by
  cases f with
  | doneCut | tooBig => rfl
  | packetCut =>
    simp only [Found.world, World.buffered]
    split <;> rfl
  | whole =>
    simp only [Found.world, World.picked, World.buffered]
    split
    · rfl
    · split <;> rfl

theorem clear_setOngoing (hl : l.reeval.isSome) (o : OngoingTransaction) :
    l.clear (w.setOngoing o) = l.clear w := by
  cases l with
  | rssi | wait => cases hl
  | _ => rfl

/-- What a wait hears decides `ongoing` anew, closes the link or stops the device. -/
theorem heard_setOngoing {heard : Heard} (hl : l.reeval.isSome)
    (hvalid : ∀ h rest, heard ≠ .invalid h rest) (o : OngoingTransaction) :
    heard.world l (w.setOngoing o) = heard.world l w ∨
      (heard.world l w).link.connected = false ∧
        heard.world l (w.setOngoing o) = (heard.world l w).setOngoing o := by
  have hclear : ∀ n rest, l.clear ((w.setOngoing o).took n rest) = l.clear (w.took n rest) :=
    fun n rest => clear_setOngoing (w := w.took n rest) hl o
  have hdoneS : l.doneS (w.setOngoing o).nc = l.doneS w.nc := by
    cases l with
    | rx v => exact doneS_setOngoing v o
    | _ => rfl
  cases heard with
  | cut => exact .inr ⟨rfl, rfl⟩
  | reeval rest =>
    obtain ⟨o', hre⟩ := Option.isSome_iff_exists.mp hl
    left
    simp only [Heard.world, hre]
    rfl
  | found v f =>
    have hworld := found_setOngoing (w := w.took (sizeof PcHeader) []) f v (v.doneS w.nc)
      w.nc.rxbuf w.nc.bufsize o
    have heq : Heard.world l (.found v f) (w.setOngoing o) = f.judged
        ((f.world v (v.doneS w.nc) w.nc.rxbuf w.nc.bufsize
          (w.took (sizeof PcHeader) [])).setOngoing o) := by
      rw [← hworld]
      cases v <;> rfl
    cases f with
    | whole => exact .inl heq
    | _ => exact .inr ⟨rfl, heq⟩
  | disconnect rest => exact .inl (by simp only [Heard.world, hclear])
  | endCut h s => exact .inl (by simp only [Heard.world, hclear, hdoneS])
  | ended h done rest => exact .inl (by simp only [Heard.world, hclear])
  | invalid h rest => exact absurd rfl (hvalid h rest)

-- ---------------------------------------------------------------------------
-- A run with and without re-evaluations
-- ---------------------------------------------------------------------------

theorem unasked_heard {o : OngoingTransaction}
    (h : Elsewhere ReevalEvents (fun _ => False) w (w'.setOngoing o))
    (hl : l.reeval.isSome) {heard : Heard} (hvalid : ∀ h rest, heard ≠ .invalid h rest) :
    Unasked (heard.world l w) (heard.world l w') := by
  have hheard := (parallel_elsewhere ReevalEvents fun _ => False).heard h l heard
  obtain heq | ⟨hf, heq⟩ := heard_setOngoing (w := w') hl hvalid o
  · exact .inl (heq ▸ hheard)
  · rw [heq] at hheard
    have ho : (heard.world l w).nc.ongoing = o := congrArg DevStateNc.ongoing hheard.nc.symm
    exact .inr ⟨hheard.connected.symm.trans hf, ho.symm ▸ hheard⟩

theorem run_exec_asked (hc : w.link.connected = true) (hpass : c.passes w.nc = true)
    (hlis : c.listener = some l) (hre : l.reeval = some o) (hnil : w.link.ptd = []) :
    c.exec.run (w.ahead (bytes msgAbortreeval)) =
      (.ok msgAbortreeval.toInt32, ((c.spoken w).took (sizeof PcHeader) []).setOngoing o) := by
  have hheard : l.hear (c.notes w.nc) (bytes msgAbortreeval) = .reeval [] := by
    rw [← List.append_nil (bytes msgAbortreeval), hear_bytes]
    exact if_pos ⟨by rw [hre]; rfl, rfl⟩
  rw [run_exec_next hc hpass hlis hnil, hheard]
  simp only [Heard.outcome, Heard.ret, Heard.world, hre]
  rfl

/-- However often the phy asks, the wait ends as it would at once, from the world `w'` of
the call that it began with. -/
theorem unasked_waits (hc : w.link.connected = true) (hpass : c.passes w.nc = true)
    (hlis : c.listener = some l) (hl : l.reeval.isSome) (hnil : w.link.ptd = [])
    (hrs : ∀ r ∈ rs, r.Answers l)
    (h : Elsewhere ReevalEvents (fun _ => False) (c.spoken w) (w'.setOngoing w.nc.ongoing))
    (hvalid : ∀ h rest, l.hear w'.nc bs ≠ .invalid h rest) :
    (c.execAsked rs bs w).1 = (l.hear w'.nc bs).ret l ∧
      Unasked (c.execAsked rs bs w).2 ((l.hear w'.nc bs).world l (w'.ahead bs)) := by
  induction rs generalizing c w with
  | nil =>
    have hhear : l.hear (c.notes w.nc) bs = l.hear w'.nc bs := by
      rw [← hear_ongoing l w'.nc w.nc.ongoing]
      exact congrArg (l.hear · bs) h.nc.symm
    unfold NcReq.execAsked
    rw [run_exec_next hc hpass hlis hnil, hhear]
    exact ⟨rfl, unasked_heard (h.fed bs) hl hvalid⟩
  | cons r rs ih =>
    obtain ⟨⟨abort, hevents⟩, hnotes⟩ := answers_spec (hrs r List.mem_cons_self)
    obtain ⟨o, hre, hexp, hlis'⟩ := hrs r List.mem_cons_self
    unfold NcReq.execAsked
    rw [run_exec_asked hc hpass hlis hre hnil]
    -- The answer is said, and `ongoing` is that of a re-evaluation.
    have hspoken : Elsewhere ReevalEvents (fun _ => False)
        (r.spoken (((c.spoken w).took (sizeof PcHeader) []).setOngoing o)) (w'.setOngoing o) := by
      refine ⟨h.connected, h.ptd.trans hnil, ?_, ?_, h.abortF, h.mem, h.ptr, h.heap, h.calls⟩
      · have hlog := h.log.more ⟨abort, rfl⟩
        simpa [NcReq.spoken, hevents] using hlog
      · rw [spoken_nc, hnotes]
        exact congrArg (fun nc : DevStateNc => { nc with ongoing := o }) h.nc
    exact ih hc ((passes_iff hexp).mpr rfl) hlis' rfl (fun r hr => hrs r (.tail _ hr)) hspoken

theorem unasked_step (h : Unasked w w') {i : Asked} (hp : i.Proper w) :
    (i.execOnce w').1 = (i.exec w).1 ∧ Unasked (i.exec w).2 (i.execOnce w').2 := by
  obtain ⟨c, rs, bs⟩ := i
  have hpar := parallel_elsewhere ReevalEvents fun _ => False
  cases rs with
  | nil =>
    obtain h | ⟨hf, h⟩ := h
    · have hmem := c.events_congr (load_congr fun a _ => h.mem a id)
      exact (hpar.exec (h.fed bs) hmem).imp_right .inl
    · have hf' : w'.link.connected = false := h.connected.trans hf
      simp only [Asked.exec, Asked.execOnce, NcReq.execAsked]
      rw [run_exec_closed (by exact hf'), run_exec_closed (by exact hf)]
      exact ⟨rfl, .inr ⟨hf, h.fed bs⟩⟩
  | cons r rs =>
    obtain ⟨l, hc, hpass, hlis, hnil, hrs, hvalid⟩ := hp.resolve_left (List.cons_ne_nil r rs)
    obtain ⟨o, hre, -⟩ := hrs r List.mem_cons_self
    obtain h | ⟨hf, -⟩ := h
    · have hspoken := hpar.spoken h (c.events_congr (load_congr fun a _ => h.mem a id))
      have honce : (Asked.execOnce ⟨c, r :: rs, bs⟩ w') =
          (l.hear (c.notes w'.nc) bs).outcome l ((c.spoken w').ahead bs) :=
        run_exec_next (h.connected.trans hc) ((congrArg c.passes h.nc).trans hpass) hlis
          (h.ptd.trans hnil) bs
      have hongoing := setOngoing_self (w := c.spoken w') (o := w.nc.ongoing) (by
        rw [spoken_nc, notes_ongoing, h.nc])
      have hvalid' : ∀ hd rest, l.hear (c.spoken w').nc bs ≠ .invalid hd rest := by
        rw [spoken_nc, h.nc]
        exact hvalid
      obtain ⟨hret, hworld⟩ := unasked_waits hc hpass hlis (by rw [hre]; rfl) hnil hrs
        (hongoing.symm ▸ hspoken) hvalid'
      rw [honce]
      exact ⟨hret.symm, hworld⟩
    · exact absurd hc (by simp [hf])

/-- Re-evaluations may be left out of a run of the family. -/
theorem reevaluations_left_out (run : List Asked) (w : World)
    (hproper : Along (fun i w => (Asked.exec i w).2) Asked.Proper run w) :
    outputs Asked.execOnce run w = outputs Asked.exec run w ∧
      Unasked (last Asked.exec run w) (last Asked.execOnce run w) :=
  outputs_alike (fun _ _ _ h hp => unasked_step h hp) (.inl (.refl _ _ w)) hproper

end

end PhyCom2G4

namespace PhyCom2G4

open Bytes Memory Runs Program Program.Prog

attribute [local instance] LibPhyCom.posix

theorem reevaluations_left_out_rx :
    let run : List Asked := [
      ⟨.rx (parse []) 0 0 0, [.newRxAbort (parse []), .newRxAbort (parse [1])],
        bytes msgRxEnd ++ bytes (parse [] : RxDone)⟩,
      ⟨.tx (parse []) 0 0, [.newTxAbort (parse [])], []⟩, ⟨.cca (parse []) 0, [], []⟩]
    outputs Asked.execOnce run (World.start []) = outputs Asked.exec run (World.start []) ∧
      Unasked (last Asked.exec run (World.start []))
        (last Asked.execOnce run (World.start [])) := by
  intro run
  have hrx : ∀ abort, (NcReq.newRxAbort abort).Answers (.rx .v1) := fun _ => ⟨_, rfl, rfl, rfl⟩
  have htx : ∀ abort, (NcReq.newTxAbort abort).Answers .tx := fun _ => ⟨_, rfl, rfl, rfl⟩
  have hend : Listener.hear (.rx .v1) ((NcReq.rx (parse []) 0 0 0).notes (World.start []).nc)
      (bytes msgRxEnd ++ bytes (parse [] : RxDone)) =
        .ended msgRxEnd (bytes (parse [] : RxDone)) [] := by decide +kernel
  refine reevaluations_left_out run (World.start []) ⟨.inr ⟨.rx .v1, ?_⟩, .inr ⟨.tx, ?_⟩,
    .inl rfl, trivial⟩
  · refine ⟨rfl, by decide +kernel, rfl, rfl, by simp [hrx], fun h rest hh => ?_⟩
    exact Heard.noConfusion (hend.symm.trans hh)
  · refine ⟨by decide +kernel, by decide +kernel, rfl, by decide +kernel, by simp [htx],
      fun h rest hh => ?_⟩
    exact Heard.noConfusion hh

end PhyCom2G4
