import PhyCom2G4.Lib.Feeds
import PhyCom2G4.Packets
import PhyCom2G4.Refinement

/-!
# When the phy writes

The library reads the phy's stream with blocking reads, so that a phy may be
ahead of its device or write only when it is asked. A call that finds on the
stream all that it reads goes the same way however much more is there already
(`exec_ahead`). So nothing that a device sees, in any run of calls of either
family, depends on when the phy wrote what it wrote (`schedule_free`).
-/

namespace PhyCom2G4

open Bytes Memory Program Program.Prog LibPhyCom

variable [LibPhyCom]

/-- The phy is ahead: it has already written `t` too. -/
@[simps -fullyApplied]
def World.ahead (t : List Byte) (w : World) : World :=
  { w with link := { w.link with ptd := w.link.ptd ++ t } }

def Found.ahead (t : List Byte) : Found → Found
  | .tooBig done rest => .tooBig done (rest ++ t)
  | .whole done packet rest => .whole done packet (rest ++ t)
  | f => f

def Heard.ahead (t : List Byte) : Heard → Heard
  | .reeval rest => .reeval (rest ++ t)
  | .found v f => .found v (f.ahead t)
  | .disconnect rest => .disconnect (rest ++ t)
  | .ended h done rest => .ended h done (rest ++ t)
  | .invalid h rest => .invalid h (rest ++ t)
  | heard => heard

def Ending.ahead (t : List Byte) : Ending → Ending
  | .refused rest => .refused (rest ++ t)
  | .got h rest => .got h (rest ++ t)
  | .cut => .cut

def Wait.ahead (t : List Byte) (W : Wait) : Wait := { W with ending := W.ending.ahead t }

def Finish.ahead (t : List Byte) : Finish → Finish
  | .ended done rest => .ended done (rest ++ t)
  | f => f

def outcomeAhead (t : List Byte) (r : α × World) : α × World := (r.1, r.2.ahead t)

section
variable {w : World} {t : List Byte}

-- ---------------------------------------------------------------------------
-- What is read
-- ---------------------------------------------------------------------------

theorem found_ahead {v : RxVersion} (hs : (Heard.found v (v.found bufSize s)).short = false)
    (t : List Byte) : v.found bufSize (s ++ t) = (v.found bufSize s).ahead t := by
  unfold RxVersion.found at hs ⊢
  cases hd : split v.sizeofDone s with
  | none => simp [hd, Heard.short] at hs
  | some d =>
    simp only [hd, split_more hd t] at hs ⊢
    split
    next => rfl
    next hfit =>
      rw [if_neg hfit] at hs
      cases hp : split (v.packetSize d.1) d.2 with
      | none => simp [hp, Heard.short] at hs
      | some p =>
        rw [split_more hp t]
        rfl

theorem heed_ahead {l : Listener} {nc : DevStateNc} (hs : (l.heed nc h s).short = false)
    (t : List Byte) : l.heed nc h (s ++ t) = (l.heed nc h s).ahead t := by
  unfold Listener.heed at hs ⊢
  split
  next => rfl
  next hre =>
    rw [if_neg hre] at hs
    cases hf : l.finds nc h with
    | some v =>
      rw [hf] at hs
      exact congrArg (Heard.found v) (found_ahead hs t)
    | none =>
      rw [hf] at hs
      dsimp only at hs ⊢
      split
      next => rfl
      next hdis =>
        rw [if_neg hdis] at hs
        split
        next hend =>
          rw [if_pos hend] at hs
          cases hd : split l.sizeofDone s with
          | none => simp [hd, Heard.short] at hs
          | some d =>
            rw [split_more hd t]
            rfl
        next => rfl

theorem hear_ahead {l : Listener} {nc : DevStateNc} (hs : (l.hear nc s).short = false)
    (t : List Byte) : l.hear nc (s ++ t) = (l.hear nc s).ahead t := by
  unfold Listener.hear at hs ⊢
  cases hh : split (sizeof PcHeader) s with
  | none => simp [hh, Heard.short] at hs
  | some r =>
    rw [hh] at hs
    rw [split_more hh t]
    exact heed_ahead hs t

theorem found_world_ahead {f : Found} (hs : (Heard.found v f).short = false) (doneS rxBuf : Addr)
    (bufSize : Nat) :
    (f.ahead t).world v doneS rxBuf bufSize (w.ahead t) =
      (f.world v doneS rxBuf bufSize w).ahead t := by
  cases f with
  | doneCut | packetCut => simp [Heard.short] at hs
  | tooBig done rest => rfl
  | whole done packet rest =>
    simp only [Found.ahead, Found.world, World.picked]
    split
    next he =>
      subst he
      rfl
    next =>
      unfold World.buffered
      split <;> rfl

theorem judged_ahead (f : Found) : f.judged (w.ahead t) = (f.judged w).ahead t := by
  cases f <;> rfl

theorem heard_world_ahead {heard : Heard} (hs : heard.short = false) (l : Listener) :
    (heard.ahead t).world l (w.ahead t) = (heard.world l w).ahead t := by
  cases heard with
  | cut | endCut => simp [Heard.short] at hs
  | reeval rest =>
    simp only [Heard.ahead, Heard.world]
    cases l.reeval <;> rfl
  | found v f =>
    simp only [Heard.ahead, Heard.world]
    rw [Found.world_took _ _ _ _ _ _ [] t]
    have hworld : (f.ahead t).world v (v.doneS w.nc) w.nc.rxbuf w.nc.bufsize
        ((w.ahead t).took (sizeof PcHeader) t) = _ :=
      found_world_ahead (w := w.took (sizeof PcHeader) []) hs _ _ _
    rw [show (w.ahead t).nc = w.nc from rfl, hworld, ← judged_ahead]
    cases f <;> rfl
  | ended h done rest =>
    cases l <;> simp only [Heard.ahead, Heard.world, ← List.append_assoc] <;> rfl
  | disconnect | invalid => cases l <;> rfl

-- ---------------------------------------------------------------------------
-- Waits
-- ---------------------------------------------------------------------------

theorem await_ahead {f : Option DevAbortReevalF} (hs : (await f calls abort s).ending ≠ .cut)
    (t : List Byte) : await f calls abort (s ++ t) = (await f calls abort s).ahead t := by
  fun_induction await f calls abort s with
  | case1 calls abort b₀ b₁ b₂ b₃ rest hre hret W ih =>
    simp only [List.cons_append, await, hre, hret, if_true]
    rw [ih hs]
    rfl
  | case2 calls abort b₀ b₁ b₂ b₃ rest hre hret =>
    simp only [List.cons_append, await, hre, hret, if_true, if_false]
    rfl
  | case3 calls abort b₀ b₁ b₂ b₃ rest hre =>
    simp only [List.cons_append, await, hre, if_false]
    rfl
  | case4 => exact absurd rfl hs

theorem wait_world_ahead {W : Wait} (hW : W.ending ≠ .cut) :
    (W.ahead t).world (w.ahead t) = (W.world w).ahead t := by
  unfold Wait.world
  simp only [Wait.ahead]
  cases hend : W.ending with
  | cut => exact absurd hend hW
  | refused rest => rfl
  | got h rest => rfl

theorem finish_ahead (hf : ∀ s', finish endMsg size h s ≠ .endCut s') (t : List Byte) :
    finish endMsg size h (s ++ t) = (finish endMsg size h s).ahead t := by
  unfold finish at hf ⊢
  split
  next hend =>
    rw [if_pos hend] at hf
    cases hd : split size s with
    | none =>
      rw [hd] at hf
      exact absurd rfl (hf s)
    | some d =>
      rw [split_more hd t]
      rfl
  next => split <;> rfl

theorem full_finish {doneS : Addr} (hptd : w.link.ptd = s)
    (hfull : ¬ CameShort w ((finish endMsg size h s).world size doneS w)) (s' : List Byte) :
    finish endMsg size h s ≠ .endCut s' := by
  intro he
  have hshort : s' = s ∧ s.length < size := by
    unfold finish at he
    split at he
    next =>
      cases hd : split size s with
      | none =>
        rw [hd] at he
        exact ⟨(Finish.endCut.inj he).symm, split_eq_none.mp hd⟩
      | some r => simp [hd] at he
    next => split at he <;> simp at he
  rw [he] at hfull
  refine hfull ?_
  simp [CameShort, Finish.world, PbDevState.claimed, Event.asked, hptd]
  omega

theorem full_close {t : Transaction} {W : Wait} {abort : Abort}
    (hW : await w.abortF w.calls abort w.link.ptd = W)
    (hfull : ¬ CameShort w (t.close W w).2) :
    W.ending ≠ .cut ∧
      ∀ h s, W.ending = .got h s → ∀ s', finish t.endMsg t.sizeofDone h s ≠ .endCut s' := by
  refine ⟨fun hcut => ?_, fun h s hgot => ?_⟩
  · rw [close_not_got (by simp [hcut])] at hfull
    exact hfull (cameShort_wait hW hcut)
  · have hptd : (W.world w).link.ptd = s := by rw [Wait.world_got hgot]; rfl
    simp only [Transaction.close, hgot, CameShort, ← (fine_wait hW hgot).claimed] at hfull
    exact full_finish hptd hfull

theorem close_ahead {tr : Transaction} {W : Wait} (hcut : W.ending ≠ .cut)
    (hf : ∀ h s, W.ending = .got h s → ∀ s', finish tr.endMsg tr.sizeofDone h s ≠ .endCut s') :
    tr.close (W.ahead t) (w.ahead t) = outcomeAhead t (tr.close W w) := by
  have hworld := wait_world_ahead (w := w) (t := t) hcut
  unfold Transaction.close outcomeAhead
  rw [hworld]
  simp only [Wait.ahead]
  cases hend : W.ending with
  | cut => exact absurd hend hcut
  | refused rest => rfl
  | got h s =>
    simp only [Ending.ahead, finish_ahead (hf h s hend)]
    cases hfin : finish tr.endMsg tr.sizeofDone h s with
    | endCut s' => exact absurd hfin (hf h s hend s')
    | _ => rfl

-- ---------------------------------------------------------------------------
-- Transactions
-- ---------------------------------------------------------------------------

theorem sent_ahead (es : List Event) : (w.ahead t).sent es = (w.sent es).ahead t := rfl

theorem verdict_ahead (r : Reception) (doneS : Addr) :
    r.accepts doneS (w.ahead t) = r.accepts doneS w ∧
      r.judged doneS (w.ahead t) = (r.judged doneS w).ahead t := by
  unfold Reception.judged Reception.accepts
  cases r.devRxevalF <;> exact ⟨rfl, rfl⟩

theorem afterFound_ahead {tr : Transaction} {r : Reception} (abort : Abort)
    (hfull : ¬ CameShort w (tr.afterFound r abort w).2) (t : List Byte) :
    tr.afterFound r abort (w.ahead t) = outcomeAhead t (tr.afterFound r abort w) := by
  have hof := found_of r.v r.bufSize w.link.ptd
  unfold Transaction.afterFound at hfull ⊢
  dsimp only at hfull ⊢
  have hshort : (Heard.found r.v (r.v.found r.bufSize w.link.ptd)).short = false := by
    cases hf : r.v.found r.bufSize w.link.ptd with
    | tooBig | whole => rfl
    | doneCut | packetCut =>
      rw [hf] at hfull hof
      have hnot := found_not_short hof tr.doneS r.rxBuf hfull
      simp at hnot
  rw [World.ahead_link_ptd, found_ahead hshort]
  generalize r.v.found r.bufSize w.link.ptd = f at hof hshort hfull ⊢
  rw [found_world_ahead hshort]
  have hcomplete : (f.ahead t).complete = f.complete := by cases f <;> rfl
  rw [hcomplete]
  cases hf : f.complete with
  | false => rfl
  | true =>
    rw [hf] at hfull
    have hfine := fine_found hof hf tr.doneS r.rxBuf
    generalize f.world r.v tr.doneS r.rxBuf r.bufSize w = w₁ at hfine hfull ⊢
    obtain ⟨hacc, hjudged⟩ := verdict_ahead (w := w₁) (t := t) r tr.doneS
    simp only [if_true, hacc, hjudged] at hfull ⊢
    by_cases ha : r.accepts tr.doneS w₁ = 1
    · simp only [ha, if_true, sent_ahead] at hfull ⊢
      have hsent : Fine w ((r.judged tr.doneS w₁).sent [.raw (bytes (verdict 1))]) :=
        (hfine.trans (fine_judged r tr.doneS)).trans (fine_sent rfl)
      rw [CameShort, ← hsent.claimed] at hfull
      obtain ⟨hcut, hend⟩ := full_close rfl hfull
      generalize (r.judged tr.doneS w₁).sent [.raw (bytes (verdict 1))] = w₂ at hcut hend ⊢
      exact (congrArg (tr.close · (w₂.ahead t)) (await_ahead hcut t)).trans (close_ahead hcut hend)
    · simp only [ha, if_false]
      rfl

theorem proceed_ahead {tr : Transaction} (hfull : ¬ CameShort w (tr.proceed w).2)
    (t : List Byte) : tr.proceed (w.ahead t) = outcomeAhead t (tr.proceed w) := by
  have hsent : Fine w (w.sent (tr.message w.mem).events) := fine_sent (asked_events _)
  generalize hw₀ : w.sent (tr.message w.mem).events = w₀ at hsent
  have hw₀' : (w.ahead t).sent (tr.message (w.ahead t).mem).events = w₀.ahead t := by
    rw [← hw₀]
    rfl
  generalize hW : await w₀.abortF w₀.calls tr.abort w₀.link.ptd = W
  have hcut : W.ending ≠ .cut := fun hcut => by
    have hno : ∀ h s, W.ending ≠ .got h s := by simp [hcut]
    rw [proceed_close hw₀ hW (fun h s r hend => absurd hend (hno h s)), close_not_got hno,
      CameShort, ← hsent.claimed] at hfull
    exact hfull (cameShort_wait hW hcut)
  have hW' : await (w₀.ahead t).abortF (w₀.ahead t).calls tr.abort (w₀.ahead t).link.ptd =
      W.ahead t := hW ▸ await_ahead (hW.symm ▸ hcut) t
  by_cases hf : ∃ r s, tr.reception = some r ∧ W.ending = .got r.v.addressfound s
  · obtain ⟨r, s, hr, hend⟩ := hf
    have hend' : (W.ahead t).ending = .got r.v.addressfound (s ++ t) := by
      simp only [Wait.ahead, hend, Ending.ahead]
    rw [proceed_found hr hw₀ hW hend] at hfull ⊢
    rw [proceed_found hr hw₀' hW' hend', wait_world_ahead hcut]
    refine afterFound_ahead _ ?_ t
    rwa [CameShort, ← (hsent.trans (fine_wait hW hend)).claimed] at hfull
  · have hnf : ∀ h s r, W.ending = .got h s → tr.reception = some r → h ≠ r.v.addressfound :=
      fun h s r hend hr hh => hf ⟨r, s, hr, hh ▸ hend⟩
    rw [proceed_close hw₀ hW hnf] at hfull ⊢
    rw [CameShort, ← hsent.claimed] at hfull
    obtain ⟨-, hend⟩ := full_close hW hfull
    rw [proceed_close hw₀' hW' fun h s r hgot hr => ?_]
    · exact close_ahead hcut hend
    · cases hend : W.ending with
      | got h' s' =>
        simp only [Wait.ahead, hend, Ending.ahead, Ending.got.injEq] at hgot
        exact hgot.1 ▸ hnf h' s' r hend hr
      | _ => simp [Wait.ahead, hend, Ending.ahead] at hgot

-- ---------------------------------------------------------------------------
-- Any call
-- ---------------------------------------------------------------------------

theorem heard_ahead (w₀ : World) {l : Listener} (hw : w₀.link.ptd = w.link.ptd)
    (hclaimed : w₀.link.claimed = w.link.claimed)
    (hfull : ¬ CameShort w ((l.hear w₀.nc w.link.ptd).world l w₀)) (t : List Byte) :
    (l.hear w₀.nc (w.ahead t).link.ptd).outcome l (w₀.ahead t) =
      outcomeAhead t ((l.hear w₀.nc w.link.ptd).outcome l w₀) := by
  have hof := hear_of l w₀.nc w₀.link.ptd
  rw [hw] at hof
  rw [CameShort, ← hclaimed] at hfull
  have hshort : (l.hear w₀.nc w.link.ptd).short = false := by
    rw [← Bool.not_eq_true]
    exact fun h => hfull ((cameShort_iff (hw.symm ▸ hof)).mpr h)
  rw [World.ahead_link_ptd, hear_ahead hshort]
  generalize l.hear w₀.nc w.link.ptd = heard at hshort ⊢
  refine Prod.ext ?_ (heard_world_ahead hshort l)
  cases heard with
  | found v f => cases f <;> rfl
  | _ => rfl

theorem ncExec_ahead {c : NcReq} (hfull : ¬ CameShort w (c.exec.run w).2) (t : List Byte) :
    c.exec.run (w.ahead t) = outcomeAhead t (c.exec.run w) := by
  cases hc : w.link.connected with
  | false => rw [run_exec_closed hc, run_exec_closed (w := w.ahead t) hc]; rfl
  | true =>
  cases hp : c.passes w.nc with
  | false => rw [run_exec_stopped hc c hp, run_exec_stopped (w := w.ahead t) hc c hp]; rfl
  | true =>
  cases hl : c.listener with
  | none => rw [run_exec_reject hc c hp hl, run_exec_reject (w := w.ahead t) hc c hp hl]; rfl
  | some l =>
    rw [run_exec_heard hc c hp hl] at hfull ⊢
    rw [run_exec_heard (w := w.ahead t) hc c hp hl]
    exact heard_ahead (w := w) (c.spoken w) rfl (claimed_spoken c) hfull t

/-- A call with nothing before it hears what the phy writes next. -/
theorem run_exec_next (hc : w.link.connected = true) {c : NcReq} (hp : c.passes w.nc = true)
    (hl : c.listener = some l) (hnil : w.link.ptd = []) (t : List Byte) :
    c.exec.run (w.ahead t) =
      (l.hear (c.notes w.nc) t).outcome l ((c.spoken w).ahead t) := by
  rw [run_exec_heard (by exact hc) c (by exact hp) hl, World.ahead_link_ptd, hnil,
    List.nil_append]
  rfl

theorem pickTx_ahead {d : Addr} (hfull : ¬ CameShort w (pickTx d w).2) (t : List Byte) :
    pickTx d (w.ahead t) = outcomeAhead t (pickTx d w) := by
  unfold pickTx at hfull ⊢
  rw [World.ahead_link_ptd]
  cases hs : split (sizeof PcHeader) w.link.ptd with
  | none =>
    rw [hs] at hfull
    have hlen := split_eq_none.mp hs
    refine absurd ?_ hfull
    simp [CameShort, PbDevState.claimed, Event.asked]
    omega
  | some r =>
    obtain ⟨hb, rest⟩ := r
    obtain ⟨hptd, hl⟩ := split_eq_some.mp hs
    have hfine : Fine w (w.took (sizeof PcHeader) rest) :=
      fine_took (by rw [hptd, List.length_append, hl])
    simp only [hs, CameShort, ← hfine.claimed] at hfull
    have hnot : ∀ s', finish msgTxEnd (sizeof TxDone) (parse hb) rest ≠ .endCut s' :=
      full_finish (w := w.took (sizeof PcHeader) rest) rfl hfull
    simp only [split_more hs t, finish_ahead hnot]
    cases hfin : finish msgTxEnd (sizeof TxDone) (parse hb) rest with
    | endCut s' => exact absurd hfin (hnot s')
    | _ => rfl

theorem cbExec_ahead {c : CbReq} (hfull : ¬ CameShort w (c.exec.run w).2) (t : List Byte) :
    c.exec.run (w.ahead t) = outcomeAhead t (c.exec.run w) := by
  cases hc : w.link.connected with
  | false => rw [run_cb_closed hc, run_cb_closed (w := w.ahead t) hc]; rfl
  | true =>
  rw [run_cb_open hc] at hfull ⊢
  rw [run_cb_open (w := w.ahead t) hc]
  have hclaimed : (c.spoken w).link.claimed = w.link.claimed := by
    unfold CbReq.spoken
    split
    · exact claimed_sent (asked_events _)
    · rfl
  have hptd : (c.spoken w).link.ptd = w.link.ptd := by
    unfold CbReq.spoken
    split <;> rfl
  have hnc : (c.spoken w).nc = w.nc := by
    unfold CbReq.spoken
    split <;> rfl
  have hspoken : c.spoken (w.ahead t) = (c.spoken w).ahead t := by
    unfold CbReq.spoken
    cases hm : c.message w.mem <;> simp only [World.ahead_mem, hm, sent_ahead]
  cases c with
  | transaction tr =>
    have h : tr.proceed (w.ahead t) = _ := proceed_ahead hfull t
    simp only [CbReq.proceed, h]
    rfl
  | txNoWait | txv2NoWait | waitNoWait => exact Prod.ext rfl hspoken
  | pickTxresp d => exact pickTx_ahead hfull t
  | rssi s d | rssiv2 s d =>
    have h := heard_ahead _ hptd hclaimed (l := .rssi d) (hnc.symm ▸ hfull) t
    rw [hnc, ← hspoken] at h
    exact h
  | wait | pickWait =>
    have h := heard_ahead _ hptd hclaimed (l := .wait) (hnc.symm ▸ hfull) t
    rw [hnc, ← hspoken] at h
    exact h

theorem exec_ahead {c : Call} (hfull : ¬ CameShort w (c.exec.run w).2) (t : List Byte) :
    c.exec.run (w.ahead t) = outcomeAhead t (c.exec.run w) := by
  cases c with
  | nc c => exact ncExec_ahead hfull t
  | cb c => exact cbExec_ahead hfull t
  | disconnect =>
    simp only [Call.exec, devDisconnectSNc, run_bind]
    cases hc : w.link.connected with
    | true => rw [run_devDisconnect hc, run_devDisconnect (w := w.ahead t) hc]; rfl
    | false => rw [run_devDisconnect_closed hc, run_devDisconnect_closed (w := w.ahead t) hc]; rfl
  | terminate =>
    simp only [Call.exec, devTerminateSNc, run_bind]
    cases hc : w.link.connected with
    | true => rw [run_devTerminate hc, run_devTerminate (w := w.ahead t) hc]; rfl
    | false => rw [run_devTerminate_closed hc, run_devTerminate_closed (w := w.ahead t) hc]; rfl

end

-- ---------------------------------------------------------------------------
-- Whole sessions
-- ---------------------------------------------------------------------------

/-- What a device does in a session: it calls the library or uses its own memory. -/
inductive Act
  | call (c : Call)
  | own (o : Own)

/-- A program that stopped does nothing more; what its later calls would do is here
all the same. -/
def Act.exec : Act → World → Except Stop Int32 × World
  | .call c, w => c.exec.run w
  | .own o, w => (.ok 0, w.setOwn o)

theorem claimed_ahead (t : List Byte) (w : World) :
    (w.ahead t).link.claimed = w.link.claimed + t.length := by
  simp [PbDevState.claimed]
  omega

theorem act_ahead (a : Act) (t : List Byte) (w : World) (h : ¬ CameShort w (a.exec w).2) :
    a.exec (w.ahead t) = ((a.exec w).1, (a.exec w).2.ahead t) := by
  cases a with
  | call c => exact exec_ahead h t
  | own o => rfl

def device : Feeds.Machine World Act Byte (Except Stop Int32) where
  exec := Act.exec
  feed := World.ahead
  Short a w := CameShort w (a.exec w).2
  feed_nil w := by simp [World.ahead]
  feed_append s t w := by simp [World.ahead]
  exec_feed := act_ahead
  full_feed a t w h := by
    rw [act_ahead a t w h]
    simpa [CameShort, claimed_ahead] using h

/-- It does not matter to a device when the phy writes: of two schedules of the same
calls and the same bytes, with no read coming short, the calls return the same and
leave the same world. A phy that wrote all of it before the first call is one of them,
when no read came short of what was there in time. -/
theorem schedule_free (w : World) (moves : List (Feeds.Move Act Byte))
    (h : device.Full moves w) :
    (device.Full ((Feeds.steps moves).map .step) (w.ahead (Feeds.fed moves)) ∧
      device.run moves w =
        device.run ((Feeds.steps moves).map .step) (w.ahead (Feeds.fed moves))) ∧
    ∀ moves', device.Full moves' w → Feeds.steps moves = Feeds.steps moves' →
      Feeds.fed moves = Feeds.fed moves' → device.run moves w = device.run moves' w :=
  ⟨Feeds.Machine.run_fed_first h, fun _ h' hsteps hfed =>
    Feeds.Machine.run_eq_of_fed h h' hsteps hfed⟩

end PhyCom2G4

namespace PhyCom2G4

open Bytes Program Program.Prog

attribute [local instance] LibPhyCom.posix

def answeredInTime : List (Feeds.Move Act Byte) :=
  [.feed (bytes msgAbortreeval), .step (.call (.nc (.tx (parse []) 0 0))), .feed (bytes msgTxEnd),
    .feed (List.replicate 8 0), .step (.call (.nc (.newTxAbort (parse []))))]

theorem schedule_free_tx :
    let w := World.start []
    (device.Full ((Feeds.steps answeredInTime).map .step) (w.ahead (Feeds.fed answeredInTime)) ∧
      device.run answeredInTime w =
        device.run ((Feeds.steps answeredInTime).map .step) (w.ahead (Feeds.fed answeredInTime))) ∧
    ∀ moves', device.Full moves' w → Feeds.steps answeredInTime = Feeds.steps moves' →
      Feeds.fed answeredInTime = Feeds.fed moves' →
      device.run answeredInTime w = device.run moves' w :=
  schedule_free _ _ ⟨show ¬ (_ < _) by decide +kernel, show ¬ (_ < _) by decide +kernel, trivial⟩

end PhyCom2G4
