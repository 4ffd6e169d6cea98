import Mathlib.Data.List.Iterate
import PhyCom2G4.Failures

/-!
# One abort value through a whole transaction

The abort structure of a request is taken from the wire by nobody: it goes
from the request to the callback, from there to the phy and back into the
request, once for each re-evaluation. `abort_threaded` follows it through a
transaction that the phy brings to its end, over both waits of a reception.
-/

namespace PhyCom2G4

open Bytes Memory Wire Program Program.Prog LibPhyCom

variable [LibPhyCom]

-- ---------------------------------------------------------------------------
-- Whole requests
-- ---------------------------------------------------------------------------

def Transaction.withAbort (abort : Abort) : Transaction → Transaction
  | .tx s packet doneS => .tx { s with abort } packet doneS
  | .txv2 s packet doneS => .txv2 { s with abort } packet doneS
  | .tx2v1 s packet doneS => .tx2v1 { s with abort } packet doneS
  | .cca s doneS => .cca { s with abort } doneS
  | .ccav2 s doneS => .ccav2 { s with abort } doneS
  | .rx s doneS rxBuf bufSize f => .rx { s with abort } doneS rxBuf bufSize f
  | .rxv2 s phyAddr doneS rxBuf bufSize f => .rxv2 { s with abort } phyAddr doneS rxBuf bufSize f
  | .rx2v1 s phyAddr doneS rxBuf bufSize f => .rx2v1 { s with abort } phyAddr doneS rxBuf bufSize f

/-- The blocking call, with the whole request as it leaves it. -/
def Transaction.exec : Transaction → M (Int32 × Transaction)
  | .tx txS packet txDoneS => do
    let (ret, s) ← devReqTxSCB txS packet txDoneS
    pure (ret, .tx s packet txDoneS)
  | .txv2 txS packet txDoneS => do
    let (ret, s) ← devReqTxv2SCB txS packet txDoneS
    pure (ret, .txv2 s packet txDoneS)
  | .tx2v1 txS packet txDoneS => do
    let (ret, s) ← devReqTx2v1SCB txS packet txDoneS
    pure (ret, .tx2v1 s packet txDoneS)
  | .cca ccaS ccaDoneS => do
    let (ret, s) ← devReqCcaSCB ccaS ccaDoneS
    pure (ret, .cca s ccaDoneS)
  | .ccav2 ccaS ccaDoneS => do
    let (ret, s) ← devReqCcav2SCB ccaS ccaDoneS
    pure (ret, .ccav2 s ccaDoneS)
  | .rx rxS rxDoneS rxBuf bufSize devRxevalF => do
    let (ret, s) ← devReqRxSCB rxS rxDoneS rxBuf bufSize devRxevalF
    pure (ret, .rx s rxDoneS rxBuf bufSize devRxevalF)
  | .rxv2 rxS phyAddr rxDoneS rxBuf bufSize devRxevalF => do
    let (ret, s) ← devReqRxv2SCB rxS phyAddr rxDoneS rxBuf bufSize devRxevalF
    pure (ret, .rxv2 s phyAddr rxDoneS rxBuf bufSize devRxevalF)
  | .rx2v1 rxS phyAddr rxDoneS rxBuf bufSize devRxevalF => do
    let (ret, s) ← devReqRx2v1SCB rxS phyAddr rxDoneS rxBuf bufSize devRxevalF
    pure (ret, .rx2v1 s phyAddr rxDoneS rxBuf bufSize devRxevalF)

def returned (wrap : Abort → β) (r : Except Stop (Int32 × Abort) × World) :
    Except Stop (Int32 × β) × World :=
  (r.1.map fun r => (r.1, wrap r.2), r.2)

theorem run_returned {m : M (Int32 × Abort)} {w : World} (put : Abort → α) (abort : α → Abort)
    (wrap : α → β) (h : ∀ a, abort (put a) = a) :
    (do
      let r ← (do
        let r ← m
        pure (r.1, put r.2) : M (Int32 × α))
      pure (r.1, wrap r.2) : M (Int32 × β)).run w =
    returned (fun a => wrap (put a)) ((do
      let r ← (do
        let r ← m
        pure (r.1, put r.2) : M (Int32 × α))
      pure (r.1, abort r.2) : M (Int32 × Abort)).run w) := by
  rw [run_putBack put abort h, run_bind, run_bind]
  rcases m.run w with ⟨_ | r, w'⟩ <;> rfl

theorem run_exec_returned (t : Transaction) (w : World) :
    t.exec.run w = returned t.withAbort (t.blocking.run w) := by
  cases t with
  | tx s packet d =>
    exact run_returned (fun abort => { s with abort }) Tx.abort (fun s => Transaction.tx s packet d)
      fun _ => rfl
  | txv2 s packet d =>
    exact run_returned (fun abort => { s with abort }) Txv2.abort
      (fun s => Transaction.txv2 s packet d) fun _ => rfl
  | tx2v1 s packet d =>
    exact run_returned (fun abort => { s with abort }) Tx2v1.abort
      (fun s => Transaction.tx2v1 s packet d) fun _ => rfl
  | cca s d =>
    exact run_returned (fun abort => { s with abort }) Cca.abort (fun s => Transaction.cca s d)
      fun _ => rfl
  | ccav2 s d =>
    exact run_returned (fun abort => { s with abort }) Ccav2.abort (fun s => Transaction.ccav2 s d)
      fun _ => rfl
  | rx s d buf size f =>
    exact run_returned (fun abort => { s with abort }) Rx.abort
      (fun s => Transaction.rx s d buf size f) fun _ => rfl
  | rxv2 s phyAddr d buf size f =>
    exact run_returned (fun abort => { s with abort }) Rxv2.abort
      (fun s => Transaction.rxv2 s phyAddr d buf size f) fun _ => rfl
  | rx2v1 s phyAddr d buf size f =>
    exact run_returned (fun abort => { s with abort }) Rx2v1.abort
      (fun s => Transaction.rx2v1 s phyAddr d buf size f) fun _ => rfl

-- ---------------------------------------------------------------------------
-- The rounds of one wait
-- ---------------------------------------------------------------------------

/-- The abort callback succeeds on `a` and leaves `f a` in its place; without a
callback the library itself does. -/
def Gives (abortF : Option DevAbortReevalF) (f : Abort → Abort) (a : Abort) : Prop :=
  match abortF with
  | some g => ∀ calls, g calls a = (0, f a)
  | none => f a = { a with recheckTime := timeNever }

/-- What `n` re-evaluations give: `f a`, `f (f a)`, … -/
def answersOf (f : Abort → Abort) (a : Abort) (n : Nat) : List Abort := List.iterate f (f a) n

def callbacksOf (abortF : Option DevAbortReevalF) (f : Abort → Abort) (a : Abort) (n : Nat) :
    List Callback :=
  match abortF with
  | some _ => (List.iterate f a n).map (.abortReeval · 0)
  | none => []

section
variable {abortF : Option DevAbortReevalF} {f : Abort → Abort} {a : Abort} {n : Nat}

omit [LibPhyCom] in
theorem reevals_succ (n : Nat) : reevals (n + 1) = bytes msgAbortreeval ++ reevals n := by
  simp [reevals, List.replicate_succ]

omit [LibPhyCom] in
theorem reevals_add (m n : Nat) : reevals (m + n) = reevals m ++ reevals n := by
  simp only [reevals, ← List.replicate_append_replicate, List.flatten_append]

theorem callbacksOf_succ : callbacksOf abortF f a (n + 1) =
    callbacksOf abortF f a 1 ++ callbacksOf abortF f (f a) n := by
  cases abortF <;> rfl

theorem callbacksOf_add (m n : Nat) : callbacksOf abortF f a (m + n) =
    callbacksOf abortF f a m ++ callbacksOf abortF f (f^[m] a) n := by
  cases abortF with
  | none => rfl
  | some g => simp only [callbacksOf, List.iterate_add, List.map_append]

theorem answersOf_add (m n : Nat) :
    answersOf f a (m + n) = answersOf f a m ++ answersOf f (f^[m] a) n := by
  simp only [answersOf, List.iterate_add, ← Function.iterate_succ_apply,
    Function.iterate_succ_apply']

theorem asked_of_gives (h : Gives abortF f a) (calls : List Callback) :
    asked abortF calls a = (0, f a, calls ++ callbacksOf abortF f a 1) := by
  cases abortF with
  | none =>
    have hf : f a = { a with recheckTime := timeNever } := h
    simp only [asked, hf, callbacksOf, List.append_nil]
  | some g =>
    have hg : g calls a = (0, f a) := h calls
    simp only [asked, hg]
    rfl

theorem await_other (hh : h ≠ msgAbortreeval) (calls : List Callback) (rest : List Byte) :
    await abortF calls a (bytes h ++ rest) = ⟨[], calls, a, .got h rest⟩ := by
  rw [await_header (split_bytes h rest), parse_bytes, if_neg hh]

theorem await_reevals (hf : ∀ i < n, Gives abortF f (f^[i] a)) (hh : h ≠ msgAbortreeval)
    (calls : List Callback) (rest : List Byte) :
    await abortF calls a (reevals n ++ (bytes h ++ rest)) =
      ⟨answersOf f a n, calls ++ callbacksOf abortF f a n, f^[n] a, .got h rest⟩ := by
  induction n generalizing a calls with
  | zero =>
    have hnil : callbacksOf abortF f a 0 = [] := by cases abortF <;> rfl
    rw [hnil, List.append_nil]
    exact await_other hh calls rest
  | succ n ih =>
    have hfirst : asked abortF calls a = (0, f a, calls ++ callbacksOf abortF f a 1) :=
      asked_of_gives (hf 0 (Nat.succ_pos n)) calls
    have hothers : ∀ i < n, Gives abortF f (f^[i] (f a)) := fun i hi =>
      hf (i + 1) (Nat.succ_lt_succ hi)
    rw [reevals_succ, List.append_assoc, await_header (split_bytes _ _), parse_bytes, if_pos rfl,
      hfirst, if_pos rfl, ih hothers, callbacksOf_succ (n := n), List.append_assoc]
    rfl

end

-- ---------------------------------------------------------------------------
-- A transaction that the phy brings to its end
-- ---------------------------------------------------------------------------

structure AddressFound (t : Transaction) where
  r : Reception
  reception : t.reception = some r
  done : List Byte
  packet : List Byte
  length_done : done.length = r.v.sizeofDone
  length_packet : packet.length = r.v.packetSize done
  fits : r.bufSize = 0 ∨ packet.length ≤ r.bufSize

def AddressFound.write {t : Transaction} (m : AddressFound t) : List Byte :=
  bytes m.r.v.addressfound ++ (m.done ++ m.packet)

def AddressFound.taken {t : Transaction} (m : AddressFound t) (w : World) : World :=
  (w.stored t.doneS m.done).picked m.r.rxBuf m.r.bufSize m.packet []

def AddressFound.Accepted {t : Transaction} (m : AddressFound t) (calls : List Callback)
    (w : World) : Prop :=
  m.r.accepts t.doneS { m.taken w with calls } = 1

/-- What the phy sends: `before` re-evaluations, an address if it finds one,
`after` more re-evaluations and the end. -/
structure Script (t : Transaction) where
  before : Nat
  found : Option (AddressFound t)
  after : Nat
  done : List Byte
  length_done : done.length = t.sizeofDone

namespace Script

variable {t : Transaction}

def write (s : Script t) : List Byte :=
  reevals s.before ++ (s.found.elim [] AddressFound.write ++
    (reevals s.after ++ (bytes t.endMsg ++ s.done)))

def replies (s : Script t) (f : Abort → Abort) : List DevMsg :=
  (answersOf f t.abort s.before).map .rerespAbortreeval ++
    s.found.elim [] (fun _ => [.rxcont]) ++
    (answersOf f (f^[s.before] t.abort) s.after).map .rerespAbortreeval

def events (s : Script t) (f : Abort → Abort) : List Event :=
  answerEvents (answersOf f t.abort s.before) ++
    s.found.elim [] (fun m => .read (sizeof PcHeader) :: .read m.r.v.sizeofDone ::
      packetReads m.packet ++ [.raw (bytes msgRxcont)]) ++
    answerEvents (answersOf f (f^[s.before] t.abort) s.after) ++
    [.read (sizeof PcHeader), .read t.sizeofDone]

end Script

section
variable {w : World} {t : Transaction} {f : Abort → Abort}

omit [LibPhyCom] in
theorem written_packetReads (packet : List Byte) :
    (packetReads packet).flatMap Event.written = [] := by
  unfold packetReads
  split <;> rfl

omit [LibPhyCom] in
theorem asked_packetReads (packet : List Byte) :
    ((packetReads packet).map Event.asked).sum = packet.length := by
  unfold packetReads
  split
  next h => simp [h]
  next => rfl

@[simp] theorem length_answersOf (f : Abort → Abort) (a : Abort) (n : Nat) :
    (answersOf f a n).length = n := List.length_iterate _ _ _

theorem Script.written_events (s : Script t) (f : Abort → Abort) :
    (s.events f).flatMap Event.written = devCodec.writeAll (s.replies f) := by
  have hend : ([.read (sizeof PcHeader), .read t.sizeofDone] : List Event).flatMap Event.written =
      [] := rfl
  unfold Script.events Script.replies
  simp only [List.flatMap_append, written_answerEvents, hend, List.append_nil,
    Codec.writeAll_append]
  cases s.found with
  | none => rfl
  | some m =>
    simp [Event.written, written_packetReads, Codec.writeAll, devCodec, DevMsg.write, DevMsg.header,
      DevMsg.body, DevMsg.tail]

theorem Script.asked_events (s : Script t) (f : Abort → Abort) :
    ((s.events f).map Event.asked).sum = s.write.length := by
  unfold Script.events Script.write
  simp only [List.map_append, List.sum_append, asked_answerEvents, length_answersOf,
    length_reevals, List.length_append, length_bytes, s.length_done]
  cases s.found with
  | none =>
    simp only [Option.elim_none, List.map_nil, List.sum_nil, List.length_nil]
    simp only [Event.asked, List.map_cons, List.map_nil, List.sum_cons, List.sum_nil]
    omega
  | some m =>
    simp only [Option.elim_some, AddressFound.write, List.map_cons, List.map_append, List.sum_cons,
      List.sum_append, asked_packetReads, List.length_append, length_bytes, m.length_done]
    simp only [Event.asked, List.map_nil, List.sum_nil]
    omega

theorem endMsg_ne_abortreeval (t : Transaction) : t.endMsg ≠ msgAbortreeval := by
  cases t <;> simp only [Transaction.endMsg, ne_eq, rxEnd_ne_abortreeval, not_false_eq_true] <;>
    decide

theorem close_rounds (hs : w.link.ptd = reevals n ++ (bytes t.endMsg ++ (done ++ rest)))
    (hl : done.length = t.sizeofDone) (hf : ∀ i < n, Gives w.abortF f (f^[i] a)) :
    let r := t.close (await w.abortF w.calls a w.link.ptd) w
    r.1 = .ok (t.endRet, f^[n] a) ∧
      r.2.link = { w.link with
        ptd := rest
        log := w.link.log ++ (answerEvents (answersOf f a n) ++
          [.read (sizeof PcHeader), .read t.sizeofDone]) } ∧
      r.2.calls = w.calls ++ callbacksOf w.abortF f a n := by
  have hfin : finish t.endMsg t.sizeofDone t.endMsg (done ++ rest) = .ended done rest := by
    simp only [finish, if_true, split_append hl]
  rw [hs, await_reevals hf (endMsg_ne_abortreeval t)]
  simp only [Transaction.close, hfin]
  refine ⟨rfl, ?_, rfl⟩
  simp [Finish.world, Wait.world, World.took, Wait.answered, World.sent, PbDevState.add]

theorem AddressFound.found_eq (m : AddressFound t) (rest : List Byte) :
    m.r.v.found m.r.bufSize (m.done ++ (m.packet ++ rest)) = .whole m.done m.packet rest := by
  have hfits : ¬(0 < m.r.bufSize ∧ m.r.bufSize < m.r.v.packetSize m.done) := by
    rintro ⟨hpos, hlt⟩
    have hle := m.fits
    have hlen := m.length_packet
    omega
  simp only [RxVersion.found, split_append m.length_done, if_neg hfits,
    split_append m.length_packet]

theorem picked_same {w u : World} (hm : w.mem = u.mem) (hp : w.ptr = u.ptr) (hh : w.heap = u.heap)
    (rxBuf : Addr) (bufSize : Nat) (packet rest rest' : List Byte) :
    (w.picked rxBuf bufSize packet rest).mem = (u.picked rxBuf bufSize packet rest').mem ∧
      (w.picked rxBuf bufSize packet rest).ptr = (u.picked rxBuf bufSize packet rest').ptr := by
  unfold World.picked World.buffered
  split
  · exact ⟨hm, hp⟩
  split <;> simp [hm, hp, hh]

theorem AddressFound.Accepted.verdict {m : AddressFound t} (h : m.Accepted w'.calls w)
    (hm : w'.mem = w.mem) (hp : w'.ptr = w.ptr) (hh : w'.heap = w.heap) (rest : List Byte) :
    m.r.accepts t.doneS ((Found.whole m.done m.packet rest).world m.r.v t.doneS m.r.rxBuf
      m.r.bufSize w') = 1 := by
  have hmem : store w'.mem t.doneS m.done = store w.mem t.doneS m.done := by rw [hm]
  have hsame := picked_same
    (w := (w'.took m.r.v.sizeofDone (m.packet ++ rest)).stored t.doneS m.done)
    (u := w.stored t.doneS m.done) hmem hp hh m.r.rxBuf m.r.bufSize m.packet rest []
  rw [← h]
  unfold Reception.accepts
  cases m.r.devRxevalF with
  | none => rfl
  | some g =>
    simp only [found_calls]
    simp only [Found.world, AddressFound.taken, hsame]

theorem judged_calls (r : Reception) (doneS : Addr) :
    ∃ evals, (r.judged doneS w).calls = w.calls ++ evals ∧
      ∀ c ∈ evals, ∃ done packet ret, c = .rxEval done packet ret := by
  unfold Reception.judged
  cases r.devRxevalF with
  | none => exact ⟨[], (List.append_nil _).symm, by simp⟩
  | some g => exact ⟨[_], rfl, by simp⟩

theorem afterFound_accepted (m : AddressFound t) (hs : w.link.ptd = m.done ++ (m.packet ++ rest))
    (ha : m.r.accepts t.doneS ((Found.whole m.done m.packet rest).world m.r.v t.doneS m.r.rxBuf
      m.r.bufSize w) = 1) (abort : Abort) :
    ∃ w' : World, t.afterFound m.r abort w =
        t.close (await w'.abortF w'.calls abort w'.link.ptd) w' ∧
      w'.link = { w.link with
        ptd := rest
        log := w.link.log ++
          (.read m.r.v.sizeofDone :: packetReads m.packet ++ [.raw (bytes msgRxcont)]) } ∧
      w'.abortF = w.abortF ∧
      ∃ evals, w'.calls = w.calls ++ evals ∧
        ∀ c ∈ evals, ∃ done packet ret, c = .rxEval done packet ret := by
  generalize hw₁ : (Found.whole m.done m.packet rest).world m.r.v t.doneS m.r.rxBuf m.r.bufSize w =
    w₁ at ha
  have hf : w₁.abortF = w.abortF := by rw [← hw₁, found_abortF]
  have hcalls : w₁.calls = w.calls := by rw [← hw₁, found_calls]
  have hconnected : w₁.link.connected = w.link.connected := by
    rw [← hw₁, found_connected]
    rfl
  have hptd : w₁.link.ptd = rest := by
    rw [← hw₁]
    exact picked_ptd _ _ rfl
  have hlog : w₁.link.log = w.link.log ++ (.read m.r.v.sizeofDone :: packetReads m.packet) := by
    rw [← hw₁, Found.world, picked_log]
    simp
  refine ⟨(m.r.judged t.doneS w₁).sent [.raw (bytes msgRxcont)], ?_, ?_, ?_, ?_⟩
  · have hverdict : verdict 1 = msgRxcont := rfl
    simp only [Transaction.afterFound, hs, m.found_eq, hw₁, ha, hverdict, Found.complete, if_true]
  · simp only [World.sent, judge_link, PbDevState.add, ← hconnected, ← hptd, hlog]
    simp
  · rw [World.sent_abortF, judged_abortF, hf]
  · rw [← hcalls]
    exact judged_calls m.r t.doneS

def Callback.isReeval : Callback → Bool
  | .abortReeval .. => true
  | .rxEval .. => false

theorem filter_callbacksOf (abortF : Option DevAbortReevalF) (f : Abort → Abort) (a : Abort)
    (n : Nat) : (callbacksOf abortF f a n).filter Callback.isReeval = callbacksOf abortF f a n := by
  rw [List.filter_eq_self]
  intro c hc
  cases abortF with
  | none => cases hc
  | some g =>
    obtain ⟨a', -, rfl⟩ := List.mem_map.mp hc
    rfl

theorem filter_evals {evals : List Callback}
    (h : ∀ c ∈ evals, ∃ done packet ret, c = .rxEval done packet ret) :
    evals.filter Callback.isReeval = [] := by
  rw [List.filter_eq_nil_iff]
  intro c hc
  obtain ⟨done, packet, ret, rfl⟩ := h c hc
  simp [Callback.isReeval]

/-- What a transaction comes to that the phy brings to its end. -/
structure Threaded (s : Script t) (f : Abort → Abort) (rest : List Byte) (w : World)
    (r : Except Stop (Int32 × Abort) × World) : Prop where
  ret : r.1 = .ok (t.endRet, f^[s.before + s.after] t.abort)
  link : r.2.link = { w.link with
    ptd := rest
    log := w.link.log ++ ((t.message w.mem).events ++ s.events f) }
  calls : ∃ cs, r.2.calls = w.calls ++ cs ∧
    cs.filter Callback.isReeval = callbacksOf w.abortF f t.abort (s.before + s.after)

theorem threaded_not_found {s : Script t} (hfound : s.found = none)
    (hs : w.link.ptd = s.write ++ rest)
    (hf : ∀ i < s.before + s.after, Gives w.abortF f (f^[i] t.abort)) :
    Threaded s f rest w (t.proceed w) := by
  have hstream : w.link.ptd =
      reevals (s.before + s.after) ++ (bytes t.endMsg ++ (s.done ++ rest)) := by
    rw [hs, Script.write, hfound, reevals_add]
    simp
  have hW := await_reevals hf (endMsg_ne_abortreeval t) w.calls (s.done ++ rest)
  rw [← hstream] at hW
  obtain ⟨hret, hlink, hcalls⟩ :=
    close_rounds (w := w.sent (t.message w.mem).events) hstream s.length_done hf
  have hproceed := proceed_close (t := t) (w := w) rfl rfl fun h s' r hend hr => by
    obtain ⟨rfl, -⟩ := Ending.got.inj ((congrArg Wait.ending hW).symm.trans hend)
    rw [(reception_ends hr).1]
    exact rxEnd_ne_addressfound _ _
  rw [hproceed]
  refine ⟨hret, hlink.trans ?_, _, hcalls, filter_callbacksOf _ _ _ _⟩
  simp [Script.events, hfound, answersOf_add, answerEvents]

theorem threaded_found {s : Script t} {m : AddressFound t} (hfound : s.found = some m)
    (hs : w.link.ptd = s.write ++ rest)
    (hf : ∀ i < s.before + s.after, Gives w.abortF f (f^[i] t.abort))
    (ha : m.Accepted (w.calls ++ callbacksOf w.abortF f t.abort s.before) w) :
    Threaded s f rest w (t.proceed w) := by
  have hbefore : ∀ i < s.before, Gives w.abortF f (f^[i] t.abort) := fun i hi =>
    hf i (Nat.lt_of_lt_of_le hi (Nat.le_add_right _ _))
  have hafter : ∀ i < s.after, Gives w.abortF f (f^[i] (f^[s.before] t.abort)) := fun i hi => by
    rw [← Function.iterate_add_apply, Nat.add_comm]
    exact hf _ (Nat.add_lt_add_left hi s.before)
  generalize htail : reevals s.after ++ (bytes t.endMsg ++ (s.done ++ rest)) = tail
  have hstream : w.link.ptd = reevals s.before ++
      (bytes m.r.v.addressfound ++ (m.done ++ (m.packet ++ tail))) := by
    rw [hs, Script.write, hfound, ← htail]
    simp [AddressFound.write]
  -- The first wait, up to the address.
  have hW := await_reevals hbefore (addressfound_ne_abortreeval m.r.v) w.calls
    (m.done ++ (m.packet ++ tail))
  rw [← hstream] at hW
  rw [proceed_found m.reception rfl hW rfl]
  generalize hw₁ : Wait.world _ (w.sent (t.message w.mem).events) = w₁
  have hlink₁ : w₁.link = { w.link with
      ptd := m.done ++ (m.packet ++ tail)
      log := w.link.log ++ ((t.message w.mem).events ++
        (answerEvents (answersOf f t.abort s.before) ++ [.read (sizeof PcHeader)])) } := by
    rw [← hw₁]
    simp [Wait.world, World.took, Wait.answered, World.sent, PbDevState.add]
  have hcalls₁ : w₁.calls = w.calls ++ callbacksOf w.abortF f t.abort s.before := by
    rw [← hw₁]
    rfl
  have hf₁ : w₁.abortF = w.abortF := by rw [← hw₁]; rfl
  rw [← hcalls₁] at ha
  -- The packet and the verdict on it.
  obtain ⟨w₂, hafterFound, hlink₂, hf₂, evals, hcalls₂, hevals⟩ :=
    afterFound_accepted (w := w₁) m (congrArg PbDevState.ptd hlink₁)
      (ha.verdict (by rw [← hw₁]; rfl) (by rw [← hw₁]; rfl) (by rw [← hw₁]; rfl) tail)
      (f^[s.before] t.abort)
  -- The second wait, up to the end.
  have hgives : ∀ i < s.after, Gives w₂.abortF f (f^[i] (f^[s.before] t.abort)) := by
    rw [hf₂, hf₁]
    exact hafter
  obtain ⟨hret, hlink, hcalls⟩ :=
    close_rounds (w := w₂) ((congrArg PbDevState.ptd hlink₂).trans htail.symm) s.length_done hgives
  rw [hafterFound]
  refine ⟨?_, ?_, callbacksOf w.abortF f t.abort s.before ++ evals ++
    callbacksOf w.abortF f (f^[s.before] t.abort) s.after, ?_, ?_⟩
  · rw [hret, ← Function.iterate_add_apply, Nat.add_comm]
  · rw [hlink, hlink₂, hlink₁]
    simp [Script.events, hfound]
  · rw [hcalls, hcalls₂, hcalls₁, hf₂, hf₁]
    simp only [List.append_assoc]
  · rw [List.filter_append, List.filter_append, filter_callbacksOf, filter_callbacksOf,
      filter_evals hevals, List.append_nil, callbacksOf_add]

theorem length_callbacksOf (h : abortF.isSome) (f : Abort → Abort) (a : Abort) (n : Nat) :
    (callbacksOf abortF f a n).length = n := by
  obtain ⟨g, rfl⟩ := Option.isSome_iff_exists.mp h
  simp [callbacksOf]

/-- One abort value goes through a transaction that the phy brings to its end:
from the request through every call of the callback, each of which is answered
before the next header is read, and back into the request, which comes back
otherwise unchanged. -/
theorem abort_threaded (t : Transaction) (s : Script t) (f : Abort → Abort) (w : World)
    (rest : List Byte) (hc : w.link.connected = true) (hs : w.link.ptd = s.write ++ rest)
    (hf : ∀ i < s.before + s.after, Gives w.abortF f (f^[i] t.abort))
    (ha : ∀ m ∈ s.found, m.Accepted (w.calls ++ callbacksOf w.abortF f t.abort s.before) w) :
    let r := t.exec.run w
    r.1 = .ok (t.endRet, t.withAbort (f^[s.before + s.after] t.abort)) ∧
      r.2.link = { w.link with
        ptd := rest
        log := w.link.log ++ ((t.message w.mem).events ++ s.events f) } ∧
      (s.events f).flatMap Event.written = devCodec.writeAll (s.replies f) ∧
      ((s.events f).map Event.asked).sum = s.write.length ∧
      ∃ cs, r.2.calls = w.calls ++ cs ∧
        cs.filter Callback.isReeval =
          callbacksOf w.abortF f t.abort (s.before + s.after) ∧
        (w.abortF.isSome → cs.countP Callback.isReeval = s.before + s.after) := by
  have hthread : Threaded s f rest w (t.proceed w) := by
    cases hfound : s.found with
    | none => exact threaded_not_found hfound hs hf
    | some m => exact threaded_found hfound hs hf (ha m hfound)
  obtain ⟨cs, hcalls, hfilter⟩ := hthread.calls
  dsimp only
  rw [run_exec_returned, run_blocking_open hc]
  refine ⟨?_, hthread.link, s.written_events f, s.asked_events f, cs, hcalls, hfilter, fun h => ?_⟩
  · rw [returned, hthread.ret]
    rfl
  · rw [List.countP_eq_length_filter, hfilter, length_callbacksOf h]

end

end PhyCom2G4

namespace PhyCom2G4

open Bytes Memory Program Program.Prog

attribute [local instance] LibPhyCom.posix

def putOff (a : Abort) : Abort := ⟨UInt64.add a.abortTime 10, a.recheckTime⟩

def askedThrice : Script (.rx (parse []) 0x100 0x200 0 none) where
  before := 1
  found := some
    { r := ⟨.v1, 0x200, 0, none⟩
      reception := rfl
      done := [0, 0, 1] ++ List.replicate 21 0
      packet := [7]
      length_done := rfl
      length_packet := rfl
      fits := .inl rfl }
  after := 2
  done := List.replicate 24 0
  length_done := rfl

theorem abort_threaded_thrice :
    let w := { World.start askedThrice.write with abortF := some fun _ a => (0, putOff a) }
    ((Transaction.rx (parse []) 0x100 0x200 0 none).exec.run w).1 = .ok (msgRxEnd.toInt32,
      .rx { (parse [] : Rx) with abort := ⟨(30 : UInt64), (0 : UInt64)⟩ } 0x100 0x200 0 none) := by
  intro w
  have hgives : ∀ i < askedThrice.before + askedThrice.after,
      Gives w.abortF putOff (putOff^[i] (parse [] : Rx).abort) := fun _ _ _ => rfl
  have haccepted : ∀ m ∈ askedThrice.found,
      m.Accepted (w.calls ++ callbacksOf w.abortF putOff (parse [] : Rx).abort 1) w := by
    intro m hm
    obtain rfl := Option.some.inj hm
    rfl
  exact (abort_threaded _ askedThrice putOff w [] rfl (List.append_nil _).symm hgives haccepted).1

end PhyCom2G4
