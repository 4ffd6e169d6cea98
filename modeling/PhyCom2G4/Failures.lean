import PhyCom2G4.Reads
import PhyCom2G4.Responses

/-!
# Failures of the family with callbacks

A blocking call fails when a read comes short or the abort callback refuses.
Either is to close the link and to give -1. It does, but for the waits for a
header: a wait that fails hands -1 on as if it were a header, which stops the
program (`failsCleanly_iff`).
-/

namespace PhyCom2G4

open Bytes Memory Program Program.Prog LibPhyCom

variable [LibPhyCom]

def Callback.refuses : Callback → Bool
  | .abortReeval _ ret => ret ≠ 0
  | .rxEval .. => false

def Refused (w w' : World) : Prop :=
  w.calls.countP Callback.refuses < w'.calls.countP Callback.refuses

def Failed (w w' : World) : Prop := CameShort w w' ∨ Refused w w'

/-- A failure between `w` and the end of the call gives -1 on a closed link. -/
def Handled (w : World) (r : Except Stop Int32 × World) : Prop :=
  Failed w r.2 → r.1 = .ok (-1) ∧ r.2.link.connected = false

/-- The re-evaluation that was refused is answered with a DISCONNECT, the only
one, and with nothing else. -/
def LeavesRefusing (w w' : World) : Prop :=
  ∃ es, w'.link.log =
      w.link.log ++ (es ++ [.read (sizeof PcHeader), .msg msgDisconnect [], .closed]) ∧
    Quiet es

structure Transaction.FailsCleanly (t : Transaction) (w : World) : Prop where
  failure : Handled w ((CbReq.transaction t).exec.run w)
  refusal : Refused w ((CbReq.transaction t).exec.run w).2 →
    LeavesRefusing w ((CbReq.transaction t).exec.run w).2

section
variable {w w' : World}

structure Fine (w w' : World) : Prop where
  claimed : w'.link.claimed = w.link.claimed
  calls : w'.calls.countP Callback.refuses = w.calls.countP Callback.refuses

theorem Fine.trans {w₁ : World} (h : Fine w w₁) (h' : Fine w₁ w') : Fine w w' :=
  ⟨h'.claimed.trans h.claimed, h'.calls.trans h.calls⟩

theorem Fine.not_failed (h : Fine w w') : ¬ Failed w w' := by
  simp [Failed, CameShort, Refused, h.claimed, h.calls]

theorem Fine.failed_iff {w₁ : World} (h : Fine w w₁) : Failed w w' ↔ Failed w₁ w' := by
  simp only [Failed, CameShort, Refused, h.claimed, h.calls]

theorem Fine.handled_iff {w₁ : World} (h : Fine w w₁) (r : Except Stop Int32 × World) :
    Handled w r ↔ Handled w₁ r := by
  simp only [Handled, h.failed_iff]

theorem fine_sent (h : (es.map Event.asked).sum = 0) : Fine w (w.sent es) := ⟨claimed_sent h, rfl⟩

theorem fine_took (h : w.link.ptd.length = n + rest.length) : Fine w (w.took n rest) :=
  ⟨claimed_took h, rfl⟩

-- ---------------------------------------------------------------------------
-- Waits
-- ---------------------------------------------------------------------------

theorem asked_answerEvents (answers : List Abort) :
    ((answerEvents answers).map Event.asked).sum = 4 * answers.length := by
  have h4 : sizeof PcHeader = 4 := rfl
  induction answers with
  | nil => rfl
  | cons a answers ih =>
    simp only [answerEvents, List.flatMap_cons, List.map_append, List.sum_append] at ih ⊢
    rw [ih]
    simp [Event.asked, h4]
    omega

omit [LibPhyCom] in
theorem length_reevals (n : Nat) : (reevals n).length = 4 * n := by
  have h4 : sizeof PcHeader = 4 := rfl
  simp [reevals, h4, Nat.mul_comm]

theorem fine_wait {W : Wait} {f : Option DevAbortReevalF} {abort : Abort}
    (hW : await f w.calls abort w.link.ptd = W) (hgot : W.ending = .got h s) :
    Fine w (W.world w) := by
  have h4 : sizeof PcHeader = 4 := rfl
  obtain ⟨s', cs, hs, hof, hcalls, hasked⟩ := await_of f w.calls abort w.link.ptd
  rw [hW] at hs hof hcalls hasked
  rw [hgot] at hof hasked
  obtain ⟨rfl, -⟩ := hof
  have hlen := congrArg List.length hs
  simp only [List.length_append, length_reevals, length_bytes, h4] at hlen
  have hcs : cs.countP Callback.refuses = 0 := by
    refine List.countP_eq_zero.mpr fun c hc => ?_
    obtain ⟨a, rfl⟩ := hasked c hc
    simp [Callback.refuses]
  rw [Wait.world_got hgot]
  constructor
  · simp [PbDevState.claimed, asked_answerEvents, Event.asked, hlen, h4]
    omega
  · simp [hcalls, hcs]

theorem cameShort_wait {W : Wait} {f : Option DevAbortReevalF} {abort : Abort}
    (hW : await f w.calls abort w.link.ptd = W) (hend : W.ending = .cut) :
    CameShort w (W.world w) := by
  have h4 : sizeof PcHeader = 4 := rfl
  obtain ⟨s', cs, hs, hof, -⟩ := await_of f w.calls abort w.link.ptd
  rw [hW] at hs hof
  rw [hend] at hof
  have hlen := congrArg List.length hs
  simp only [List.length_append, length_reevals] at hlen
  have hshort : s'.length < 4 := hof
  simp [CameShort, PbDevState.claimed, Wait.world, hend, asked_answerEvents, Event.asked, hlen, h4]
  omega

theorem wait_failed_iff {W : Wait} {f : Option DevAbortReevalF} {abort : Abort}
    (hW : await f w.calls abort w.link.ptd = W) :
    Failed w (W.world w) ↔ ¬ ∃ h s, W.ending = .got h s := by
  cases hend : W.ending with
  | got h s => exact iff_of_false (fine_wait hW hend).not_failed fun hn => hn ⟨h, s, rfl⟩
  | cut => exact iff_of_true (.inl (cameShort_wait hW hend)) (by simp)
  | refused rest =>
    refine iff_of_true (.inr ?_) (by simp)
    obtain ⟨s', cs, -, -, hcalls, hasked⟩ := await_of f w.calls abort w.link.ptd
    rw [hW] at hcalls hasked
    rw [hend] at hasked
    obtain ⟨a, ret, hm, hne⟩ := hasked
    have hpos : 0 < cs.countP Callback.refuses :=
      List.countP_pos_iff.mpr ⟨_, hm, by simpa [Callback.refuses] using hne⟩
    simp only [Refused, Wait.world, hend, World.shut_calls, World.took_calls, Wait.answered_calls,
      hcalls, List.countP_append]
    omega

theorem handled_close_iff {t : Transaction} {W : Wait} {abort : Abort}
    (hW : await w.abortF w.calls abort w.link.ptd = W) :
    Handled w (dropAbort (t.close W w)) ↔ ∃ h s, W.ending = .got h s := by
  have hfailed := wait_failed_iff hW
  cases hend : W.ending with
  | got h s =>
    refine iff_of_true ?_ ⟨h, s, rfl⟩
    have hfine := fine_wait hW hend
    have hptd : (W.world w).link.ptd = s := by rw [Wait.world_got hend]; rfl
    rw [hfine.handled_iff]
    simp only [dropAbort, Transaction.close, hend]
    generalize W.world w = w₁ at hptd ⊢
    unfold finish
    split
    next =>
      cases hd : split t.sizeofDone s with
      | none => exact fun _ => ⟨rfl, rfl⟩
      | some r =>
        obtain ⟨done, rest⟩ := r
        obtain ⟨hs, hl⟩ := split_eq_some.mp hd
        have hf : Fine w₁ (w₁.took t.sizeofDone rest) :=
          fine_took (by rw [hptd, hs, List.length_append, hl])
        exact fun h => absurd h (Fine.not_failed ⟨hf.claimed, hf.calls⟩)
    next =>
      split
      next => exact fun _ => ⟨rfl, rfl⟩
      next => exact fun h => absurd h (Fine.not_failed ⟨rfl, rfl⟩)
  | _ =>
    rw [hend] at hfailed
    refine iff_of_false (fun hh => ?_) (by simp)
    simp only [dropAbort, Transaction.close, hend] at hh
    exact absurd (hh (hfailed.mpr (by simp))).1 (by simp [Except.map])

-- ---------------------------------------------------------------------------
-- Whole calls
-- ---------------------------------------------------------------------------

theorem fine_found {f : Found} (hof : f.Of v bufSize w.link.ptd) (hf : f.complete = true)
    (doneS rxBuf : Addr) : Fine w (f.world v doneS rxBuf bufSize w) := by
  cases f with
  | whole done packet rest =>
    obtain ⟨hs, hd, -, hp⟩ := hof
    have ht : Fine w (w.took v.sizeofDone (packet ++ rest)) :=
      fine_took (by rw [hs, List.length_append, hd])
    refine ht.trans ⟨?_, ?_⟩
    · exact claimed_picked (w := (w.took v.sizeofDone (packet ++ rest)).stored doneS done)
        rxBuf bufSize (by simp)
    · simp only [Found.world, World.picked, World.buffered]
      split
      · rfl
      · split <;> rfl
  | _ => simp [Found.complete] at hf

theorem fine_judged (r : Reception) (doneS : Addr) : Fine w (r.judged doneS w) := by
  refine ⟨by rw [judge_link], ?_⟩
  unfold Reception.judged
  cases r.devRxevalF <;> simp [Callback.refuses]

/-- From an ADDRESSFOUND header on, only the wait after an accepted packet can
fail to be handled. -/
theorem handled_afterFound_iff {t : Transaction} {r : Reception} (abort : Abort) :
    Handled w (dropAbort (t.afterFound r abort w)) ↔
      let w₁ := (r.v.found r.bufSize w.link.ptd).world r.v t.doneS r.rxBuf r.bufSize w
      let w₂ := (r.judged t.doneS w₁).sent [.raw (bytes (verdict (r.accepts t.doneS w₁)))]
      (r.v.found r.bufSize w.link.ptd).complete = true ∧ r.accepts t.doneS w₁ = 1 →
        ∃ h s, (await w₂.abortF w₂.calls abort w₂.link.ptd).ending = .got h s := by
  have hof := found_of r.v r.bufSize w.link.ptd
  unfold Transaction.afterFound
  dsimp only
  generalize r.v.found r.bufSize w.link.ptd = f at hof ⊢
  have hcf := found_connected (w := w) f r.v t.doneS r.rxBuf r.bufSize
  cases hf : f.complete with
  | false =>
    rw [hf] at hcf
    exact iff_of_true (fun _ => ⟨rfl, hcf⟩) (fun h => by simp at h)
  | true =>
    have hfine := fine_found hof hf t.doneS r.rxBuf
    generalize f.world r.v t.doneS r.rxBuf r.bufSize w = w₁ at hfine ⊢
    have hsent : Fine w ((r.judged t.doneS w₁).sent
        [.raw (bytes (verdict (r.accepts t.doneS w₁)))]) :=
      (hfine.trans (fine_judged r t.doneS)).trans (fine_sent rfl)
    simp only [if_true, true_and]
    split
    next hacc =>
      rw [hsent.handled_iff, handled_close_iff rfl]
      exact ⟨fun h _ => h, fun h => h hacc⟩
    next hrej =>
      exact iff_of_true (fun h => absurd h hsent.not_failed) fun h => absurd h hrej

omit [LibPhyCom] in
theorem forall_mem_ite [Decidable c] {x : α} {P : α → Prop} :
    (∀ y ∈ (if c then [x] else []), P y) ↔ (c → P x) := by
  split <;> simp [*]

theorem handled_exec_iff (hc : w.link.connected = true) (t : Transaction) :
    Handled w ((CbReq.transaction t).exec.run w) ↔
      ∀ x ∈ t.waits w, ∃ h s, x.2.1.ending = .got h s := by
  have hsent : Fine w (w.sent (t.message w.mem).events) := fine_sent (asked_events _)
  rw [run_transaction_open hc, hsent.handled_iff]
  unfold Transaction.proceed Transaction.waits
  dsimp only
  generalize w.sent (t.message w.mem).events = w₁
  generalize hW : await w₁.abortF w₁.calls t.abort w₁.link.ptd = W
  have hclose := handled_close_iff (t := t) hW
  rw [List.forall_mem_cons]
  cases hr : t.reception with
  | none => simpa [hr] using hclose
  | some r =>
  cases hend : W.ending with
  | got h s =>
    have hfine := fine_wait hW hend
    by_cases hh : h = r.v.addressfound
    · simp only [hh, if_true, true_and]
      rw [hfine.handled_iff, handled_afterFound_iff, forall_mem_ite]
      exact ⟨fun h => ⟨⟨_, _, rfl⟩, h⟩, fun h => h.2⟩
    · simp only [hh, if_false, false_and]
      simpa [hend] using hclose
  | _ => simpa [hr, hend] using hclose

-- ---------------------------------------------------------------------------
-- Refusals
-- ---------------------------------------------------------------------------

theorem LeavesRefusing.after {w₁ : World} (h : w.link.Continues ms w₁.link)
    (hc : w₁.link.connected = true) (h' : LeavesRefusing w₁ w') : LeavesRefusing w w' := by
  obtain ⟨es, hlog, -, ⟨-, hq⟩ | ⟨hf, -⟩⟩ := h
  · obtain ⟨es', hlog', hq'⟩ := h'
    exact ⟨es ++ es', by rw [hlog', hlog]; simp only [List.append_assoc], hq.append hq'⟩
  · exact absurd hc (by simp [hf])

theorem refused_congr {w₁ : World} (h : w₁.calls.countP Callback.refuses =
    w.calls.countP Callback.refuses) : Refused w w' ↔ Refused w₁ w' := by
  simp only [Refused, h]

theorem not_refused (h : w'.calls = w.calls) : ¬ Refused w w' := by
  simp [Refused, h]

theorem leavesRefusing_wait {W : Wait} {f : Option DevAbortReevalF} {abort : Abort}
    (hW : await f w.calls abort w.link.ptd = W) (hr : Refused w (W.world w)) :
    LeavesRefusing w (W.world w) := by
  obtain ⟨s', cs, hs, hof, hcalls, hasked⟩ := await_of f w.calls abort w.link.ptd
  rw [hW] at hcalls hasked
  have hno : (∀ c ∈ cs, ∃ a, c = Callback.abortReeval a 0) → ¬ (w.calls.countP Callback.refuses <
      (w.calls ++ cs).countP Callback.refuses) := fun h => by
    have hcs : cs.countP Callback.refuses = 0 := by
      refine List.countP_eq_zero.mpr fun c hc => ?_
      obtain ⟨a, rfl⟩ := h c hc
      simp [Callback.refuses]
    simp [hcs]
  cases hend : W.ending with
  | refused rest =>
    refine ⟨answerEvents W.answers, ?_, quiet_answerEvents _⟩
    simp [Wait.world, hend]
  | cut =>
    rw [hend] at hasked
    exact absurd (by simpa [Refused, Wait.world, hend, hcalls] using hr) (hno hasked)
  | got h rest =>
    rw [hend] at hasked
    exact absurd (by simpa [Refused, Wait.world, hend, hcalls] using hr) (hno hasked)

theorem leavesRefusing_close {t : Transaction} {W : Wait} {f : Option DevAbortReevalF}
    {abort : Abort} (hW : await f w.calls abort w.link.ptd = W)
    (hr : Refused w (t.close W w).2) : LeavesRefusing w (t.close W w).2 := by
  cases hend : W.ending with
  | got h s =>
    have hcalls : (t.close W w).2.calls = (W.world w).calls := by
      simp only [Transaction.close, hend]
      cases finish t.endMsg t.sizeofDone h s <;> rfl
    have hfine := fine_wait hW hend
    rw [refused_congr hfine.calls] at hr
    exact absurd hr (not_refused hcalls)
  | _ =>
    have hworld : (t.close W w).2 = W.world w := by simp only [Transaction.close, hend]
    rw [hworld] at hr ⊢
    exact leavesRefusing_wait hW hr

theorem leavesRefusing_afterFound {t : Transaction} {r : Reception}
    (hc : w.link.connected = true) (abort : Abort) (hr : Refused w (t.afterFound r abort w).2) :
    LeavesRefusing w (t.afterFound r abort w).2 := by
  revert hr
  have hcont := continues_found hc (r.v.found r.bufSize w.link.ptd) r.v t.doneS r.rxBuf r.bufSize
  have hcf := found_connected (w := w) (r.v.found r.bufSize w.link.ptd) r.v t.doneS r.rxBuf
    r.bufSize
  have hcalls := found_calls (w := w) (r.v.found r.bufSize w.link.ptd) r.v t.doneS r.rxBuf r.bufSize
  unfold Transaction.afterFound
  dsimp only
  generalize r.v.found r.bufSize w.link.ptd = f at hcont hcf hcalls ⊢
  generalize f.world r.v t.doneS r.rxBuf r.bufSize w = w₁ at hcont hcf hcalls ⊢
  split
  next hf =>
    rw [hf, hc] at hcf
    have hv := continues_verdict (w := r.judged t.doneS w₁) (by rw [judge_link]; exact hcf)
      (r.accepts t.doneS w₁)
    rw [judge_link] at hv
    have hcount : ((r.judged t.doneS w₁).sent [.raw (bytes (verdict (r.accepts t.doneS w₁)))]
        ).calls.countP Callback.refuses = w.calls.countP Callback.refuses := by
      rw [World.sent_calls, (fine_judged r t.doneS).calls, hcalls]
    have hcv : ((r.judged t.doneS w₁).sent [.raw (bytes (verdict (r.accepts t.doneS w₁)))]
        ).link.connected = true := by simpa using hcf
    split
    next =>
      intro hr
      rw [refused_congr hcount] at hr
      exact .after (hcont.trans hcf hv) hcv (leavesRefusing_close rfl hr)
    next =>
      intro hr
      exact absurd hr (by simp only [Refused, hcount, Nat.lt_irrefl, not_false_eq_true])
  next => exact fun hr => absurd hr (not_refused hcalls)

theorem leavesRefusing_exec (hc : w.link.connected = true) (t : Transaction)
    (hr : Refused w ((CbReq.transaction t).exec.run w).2) :
    LeavesRefusing w ((CbReq.transaction t).exec.run w).2 := by
  have hsent := continues_events hc (message_stays t w.mem).1 (message_stays t w.mem).2
  revert hr
  rw [run_transaction_open hc]
  unfold Transaction.proceed dropAbort
  dsimp only
  have hc₁ : (w.sent (t.message w.mem).events).link.connected = true := hc
  have hcalls : (w.sent (t.message w.mem).events).calls = w.calls := rfl
  generalize w.sent (t.message w.mem).events = w₁ at hsent hc₁ hcalls ⊢
  generalize hW : await w₁.abortF w₁.calls t.abort w₁.link.ptd = W
  intro hr
  rw [refused_congr (by rw [hcalls])] at hr
  refine .after hsent hc₁ ?_
  revert hr
  cases t.reception with
  | none => exact leavesRefusing_close hW
  | some r =>
  cases hend : W.ending with
  | got h s =>
    dsimp only
    split
    next =>
      intro hr
      have hcW : (W.world w₁).link.connected = true := by
        rw [Wait.world_got hend]
        exact hc₁
      rw [refused_congr (fine_wait hW hend).calls] at hr
      exact .after (continues_wait hc₁ W) hcW (leavesRefusing_afterFound hcW _ hr)
    next => exact leavesRefusing_close hW
  | _ => exact leavesRefusing_close hW

/-- A blocking call fails as it should just when no wait for a header fails: when
the phy's stream still has a whole header at each of them, and the abort
callback gives what it is asked for before. -/
theorem failsCleanly_iff (hc : w.link.connected = true) (t : Transaction) :
    t.FailsCleanly w ↔ ∀ x ∈ t.waits w, ∃ h s, x.2.1.ending = .got h s :=
  ⟨fun h => (handled_exec_iff hc t).mp h.failure,
    fun h => ⟨(handled_exec_iff hc t).mpr h, leavesRefusing_exec hc t⟩⟩

end

end PhyCom2G4

namespace PhyCom2G4

open Bytes Program Program.Prog

attribute [local instance] LibPhyCom.posix

/-- The phy ends without an answer to a transmission. -/
theorem invalidResp_of_dead_link :
    let t := Transaction.tx (parse []) 0 0
    let w := World.start []
    (t.blocking.run w).1 = .error (.invalidResp (-1)) ∧ ¬ t.FailsCleanly w := by
  refine ⟨rfl, fun h => ?_⟩
  have hret : (Except.error (.invalidResp (-1)) : Except Stop Int32) = .ok (-1) :=
    (h.failure (.inl (show (0 : Nat) < 4 by decide))).1
  cases hret

theorem failsCleanly_iff_txEnd :
    let t := Transaction.tx (parse []) 0 0
    let w := World.start (bytes msgTxEnd)
    t.FailsCleanly w ↔ ∀ x ∈ t.waits w, ∃ h s, x.2.1.ending = .got h s :=
  failsCleanly_iff rfl _

end PhyCom2G4
