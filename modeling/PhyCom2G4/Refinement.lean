import PhyCom2G4.Driver

/-!
# The two families agree

A blocking call and the device that drives the same transaction with the
family without callbacks end alike (`driver_refines`): they read and write
the same, make the same callbacks and leave the same memory, whatever the phy
sends, as long as no read comes short, no abort callback refuses and the
verdicts are 0 or 1.
-/

namespace PhyCom2G4

open Bytes Memory Program Program.Prog LibPhyCom

variable [LibPhyCom]

/-- What the driver returns where the blocking call returns `ret`: the END header
for a success, and 0 for a packet that was rejected. -/
def Transaction.ncRet (t : Transaction) (ret : Int32) : Int32 :=
  if ret = -1 then -1 else if ret = t.endRet then t.endMsg.toInt32 else 0

/-- What the two have written: the same, but that the driver of a v2 reception
accepts a packet with RXV2CONT and an abort structure instead of RXCONT. -/
inductive Transaction.SameLog (t : Transaction) : List Event → List Event → Prop
  | same (b : List Event) : SameLog t b b
  | cont (b : List Event) (abort : Abort) (hr : t.reception = some r) (hv : r.v = .v2) :
    SameLog t (b ++ [.raw (bytes msgRxcont)])
      (b ++ [.raw (bytes msgRxv2cont), .raw (bytes abort)])

/-- The blocking call and the driver end alike, the logs being alike so far as
`b` and `b'` go and the same from there. -/
structure Transaction.Alike (t : Transaction) (b b' : List Event)
    (r r' : Except Stop (Int32 × Abort) × World) : Prop where
  result : r'.1 = r.1.map fun x => (t.ncRet x.1, x.2)
  world : Twin b b' r.2 r'.2

section
variable {w w' : World} {b b' : List Event}

theorem listener_spec (t : Transaction) :
    t.listener ≠ .wait ∧ (∀ h, t.listener.endsWith h = true ↔ h = t.endMsg) ∧
      t.listener.sizeofDone = t.sizeofDone ∧ t.listener.endRet t.endMsg = t.endMsg.toInt32 := by
  cases t <;> exact ⟨by simp [Transaction.listener], fun h => by
    simp [Transaction.listener, Listener.endsWith, Transaction.endMsg], rfl, rfl⟩

theorem ncRet_endRet (t : Transaction) : t.ncRet t.endRet = t.endMsg.toInt32 := by
  cases t <;> exact (if_neg (by simp only [Transaction.endRet]; decide)).trans (if_pos rfl)

@[simp] theorem ncRet_minus_one (t : Transaction) : t.ncRet (-1) = -1 := if_pos rfl

theorem ncRet_addressfound {t : Transaction} {r : Reception} (hr : t.reception = some r) :
    t.ncRet r.v.addressfound.toInt32 = 0 := by
  have hfail : r.v.addressfound.toInt32 ≠ -1 := by cases r.v <;> decide
  have hend : r.v.addressfound.toInt32 ≠ t.endRet := by
    cases t <;> simp only [Transaction.reception, Option.some.injEq, reduceCtorEq] at hr <;>
      subst hr <;> simp only [Transaction.endRet] <;> decide
  exact (if_neg hfail).trans (if_neg hend)

theorem drive_done {t : Transaction} (hre : ret ≠ msgAbortreeval.toInt32)
    (hfind : ∀ r, t.reception = some r → ret ≠ r.v.addressfound.toInt32) (fuel : Nat)
    (abort : Abort) : (t.drive (fuel + 1) ret abort).run w = (.ok (ret, abort), w) := by
  rw [Transaction.drive, if_neg hre]
  cases hr : t.reception with
  | none => rfl
  | some r =>
    dsimp only
    rw [if_neg (hfind r hr)]
    rfl

theorem drive_minus_one (t : Transaction) (fuel : Nat) (abort : Abort) :
    (t.drive (fuel + 1) (-1) abort).run w = (.ok (-1, abort), w) :=
  drive_done (by decide) (fun r _ => by cases r.v <;> decide) fuel abort

theorem drive_zero (t : Transaction) (fuel : Nat) (abort : Abort) :
    (t.drive (fuel + 1) 0 abort).run w = (.ok (0, abort), w) :=
  drive_done (by decide) (fun r _ => by cases r.v <;> decide) fuel abort

theorem drive_endMsg (t : Transaction) (fuel : Nat) (abort : Abort) :
    (t.drive (fuel + 1) t.endMsg.toInt32 abort).run w = (.ok (t.endMsg.toInt32, abort), w) := by
  refine drive_done ?_ (fun r hr => ?_) fuel abort
  · cases t <;> simp only [Transaction.endMsg] <;> decide
  · cases t <;> simp only [Transaction.reception, Option.some.injEq, reduceCtorEq] at hr <;>
      subst hr <;> simp only [Transaction.endMsg] <;> decide

theorem Twin.clear (h : Twin b b' w w') (l : Listener) : Twin b b' w (l.clear w') := by
  cases l <;> first | exact h | exact h.setNc _

theorem alike_close {t : Transaction} {w₁ : World} (hc : w₁.link.connected = true)
    (hptd : w₁.link.ptd = bytes h ++ s) (hre : h ≠ msgAbortreeval)
    (hfind : t.listener.finds w₁.nc h = none) (hdone : t.listener.doneS w₁.nc = t.doneS)
    {W : Wait} (hgot : W.ending = .got h s)
    (htwin : Twin b b' (W.world w) (w₁.took (sizeof PcHeader) s))
    (hfull : ∀ s', finish t.endMsg t.sizeofDone h s ≠ .endCut s') (fuel : Nat) :
    t.Alike b b' (t.close W w) ((t.hearing (fuel + 1) W.abort).run w₁) := by
  obtain ⟨hwait, hends, hsize, hret⟩ := listener_spec t
  rw [Transaction.hearing, run_bind, run_listen hc, hptd, hear_bytes]
  unfold Transaction.close Listener.heed
  simp only [hgot, hre, and_false, if_false, hfind]
  by_cases hend : h = t.endMsg
  · subst hend
    have hdis : t.endMsg ≠ msgDisconnect := by cases t <;> simp [Transaction.endMsg]
    rw [if_neg hdis, if_pos ((hends _).mpr rfl), hsize]
    simp only [finish, if_true] at hfull ⊢
    cases hd : split t.sizeofDone s with
    | none =>
      rw [hd] at hfull
      exact absurd rfl (hfull s)
    | some r =>
      obtain ⟨done, rest⟩ := r
      obtain ⟨rfl, -⟩ := split_eq_some.mp hd
      simp only [Heard.outcome, Heard.ret, Heard.world, hret, drive_endMsg]
      refine ⟨by simp [Finish.ret, Except.map, ncRet_endRet], ?_⟩
      rw [tookDone_clear hwait, hsize, World.took_nc, hdone]
      exact ((htwin.clear _).took _ _).stored _ _
  · have hne : t.listener.endsWith h = false := by
      rw [Bool.eq_false_iff]
      exact fun he => hend ((hends h).mp he)
    simp only [finish, if_neg hend, hne]
    by_cases hdis : h = msgDisconnect
    · simp only [if_pos hdis, Heard.outcome, Heard.ret, Heard.world, drive_minus_one]
      exact ⟨by simp [Finish.ret, Except.map], (htwin.clear _).shut _⟩
    · simp only [if_neg hdis, Bool.false_eq_true, if_false, Heard.outcome, Heard.ret]
      refine ⟨by simp [Finish.ret, Except.map], ?_⟩
      cases t.listener with
      | rx v => exact htwin
      | tx => exact htwin.clear .tx
      | cca => exact htwin.clear .cca
      | rssi d => exact htwin.clear (.rssi d)
      | wait => exact htwin.clear .wait

-- ---------------------------------------------------------------------------
-- The address
-- ---------------------------------------------------------------------------

structure Transaction.Registered (t : Transaction) (r : Reception) (nc : DevStateNc) : Prop where
  doneS : r.v.doneS nc = t.doneS
  rxbuf : nc.rxbuf = r.rxBuf
  bufsize : nc.bufsize = r.bufSize

/-- A request is let through on an idle state, says what the transaction says and
waits as it does. -/
theorem request_spec (t : Transaction) :
    t.request.expects = some .nothing ∧ t.request.listener = some t.listener ∧
      (∀ mem, t.request.events mem = (t.message mem).events) ∧
      ∀ nc, t.listener.doneS (t.request.notes nc) = t.doneS := by
  cases t <;> exact ⟨rfl, rfl, fun _ => rfl, fun _ => rfl⟩

theorem reception_spec {t : Transaction} {r : Reception} (hr : t.reception = some r) :
    t.listener = .rx r.v ∧ (∀ nc, t.Registered r (t.request.notes nc)) ∧
      ∀ nc, (t.request.notes nc).weGotAddress = false := by
  cases t <;> simp only [Transaction.reception, Option.some.injEq, reduceCtorEq] at hr <;>
    subst hr <;> exact ⟨rfl, fun _ => ⟨rfl, rfl, rfl⟩, fun _ => rfl⟩

theorem finds_eq_none {t : Transaction} (hh : ∀ r, t.reception = some r → h ≠ r.v.addressfound)
    (nc : DevStateNc) : t.listener.finds nc h = none := by
  cases hr : t.reception with
  | none => cases t <;> first | rfl | simp [Transaction.reception] at hr
  | some r =>
    rw [(reception_spec hr).1]
    simp [Listener.finds, hh r hr]

/-- The call that answers an address: its verdict is written and, for a packet
that is kept, waited on. -/
theorem contAfterAddr_spec (v : RxVersion) (b : Bool) (abort : Abort) :
    (v.contAfterAddr b abort).expects = some .rxHeaderEval ∧
      (v.contAfterAddr b abort).listener = (if b then some (.rx v) else none) ∧
      ∀ nc, (v.contAfterAddr b abort).notes nc = nc := by
  cases v <;> cases b <;> exact ⟨rfl, rfl, fun _ => rfl⟩

theorem contAfterAddr_events (v : RxVersion) (abort : Abort) (mem : Mem) :
    (v.contAfterAddr false abort).events mem = [.raw (bytes msgRxstop)] ∧
      (v.contAfterAddr true abort).events mem = match v with
        | .v1 => [.raw (bytes msgRxcont)]
        | .v2 => [.raw (bytes msgRxv2cont), .raw (bytes abort)] := by
  cases v <;> exact ⟨rfl, rfl⟩

theorem run_cont_reject (hc : w.link.connected = true) (hev : w.nc.ongoing = .rxHeaderEval)
    (v : RxVersion) (abort : Abort) :
    (v.contAfterAddr false abort).exec.run w =
      (.ok 0, (w.sent [.raw (bytes msgRxstop)]).setOngoing .nothing) := by
  obtain ⟨hexp, hlis, hnotes⟩ := contAfterAddr_spec v false abort
  rw [run_exec_reject hc _ ((passes_iff hexp).mpr hev) hlis, NcReq.spoken,
    (contAfterAddr_events v abort w.mem).1, hnotes]
  rfl

theorem run_cont_accept (hc : w.link.connected = true) (hev : w.nc.ongoing = .rxHeaderEval)
    (v : RxVersion) (abort : Abort) :
    (v.contAfterAddr true abort).exec.run w =
      (Listener.rx v).listen.run (w.sent ((v.contAfterAddr true abort).events w.mem)) := by
  obtain ⟨hexp, hlis, hnotes⟩ := contAfterAddr_spec v true abort
  rw [run_exec_listen hc _ ((passes_iff hexp).mpr hev) hlis, NcReq.spoken, hnotes]
  rfl

theorem run_hearing_found {t : Transaction} {r : Reception} (hr : t.reception = some r)
    (hc : w.link.connected = true) (hptd : w.link.ptd = bytes r.v.addressfound ++ s)
    (hreg : t.Registered r w.nc) (hgot : w.nc.weGotAddress = false) (fuel : Nat) (abort : Abort) :
    let f := r.v.found r.bufSize s
    let w' := f.world r.v t.doneS r.rxBuf r.bufSize (w.took (sizeof PcHeader) s)
    (t.hearing (fuel + 1) abort).run w =
      if f.complete then
        (do
          let acceptPacket ← evalRx r.v t.doneS r.rxBuf r.devRxevalF
          let ret ← (r.v.contAfterAddr (acceptPacket ≠ 0) abort).exec
          t.drive fuel ret abort : M (Int32 × Abort)).run
          { w' with nc := { w'.nc with weGotAddress := true, ongoing := .rxHeaderEval } }
      else (.ok (-1, abort), w') := by
  have hheed : t.listener.heed w.nc r.v.addressfound s = .found r.v (r.v.found r.bufSize s) := by
    rw [(reception_spec hr).1, ← hreg.bufsize]
    simp [Listener.heed, Listener.finds, hgot]
  have hre : r.v.addressfound.toInt32 ≠ msgAbortreeval.toInt32 := by cases r.v <;> decide
  rw [Transaction.hearing, run_bind, run_listen hc, hptd, hear_bytes, hheed]
  simp only [Heard.outcome, Heard.ret, Heard.world, hreg.doneS, hreg.rxbuf, hreg.bufsize]
  rw [Found.world_took _ _ _ _ _ _ [] s]
  cases r.v.found r.bufSize s with
  | whole done packet rest =>
    simp only [Found.ret, Found.judged, Found.complete, if_true]
    rw [Transaction.drive, if_neg hre, hr]
    dsimp only
    rw [if_pos rfl]
  | _ =>
    simp only [Found.ret, Found.judged, Found.complete, drive_minus_one, Bool.false_eq_true,
      if_false]

-- ---------------------------------------------------------------------------
-- Waits
-- ---------------------------------------------------------------------------

def World.NeverRefuses (w : World) : Prop :=
  ∀ f, w.abortF = some f → ∀ calls abort, (f calls abort).1 = 0

theorem await_neverRefuses {f : Option DevAbortReevalF}
    (hf : ∀ g, f = some g → ∀ calls abort, (g calls abort).1 = 0) (calls : List Callback)
    (abort : Abort) (s rest : List Byte) : (await f calls abort s).ending ≠ .refused rest := by
  have hask : ∀ calls abort, (asked f calls abort).1 = 0 := fun calls abort => by
    cases f with
    | none => rfl
    | some g => exact hf g rfl calls abort
  fun_induction await f calls abort s with
  | case1 calls abort b₀ b₁ b₂ b₃ s hre hret W ih => exact ih
  | case2 calls abort b₀ b₁ b₂ b₃ s hre hret => exact absurd (hask _ _) hret
  | case3 => simp
  | case4 => simp

theorem close_not_got {W : Wait} (hno : ∀ h s, W.ending ≠ .got h s) (t : Transaction) :
    t.close W w = (.error (.invalidResp (-1)), W.world w) := by
  unfold Transaction.close
  split
  next h s hend => exact absurd hend (hno h s)
  next => rfl

theorem wait_got {W : Wait} (hW : await w.abortF w.calls abort w.link.ptd = W)
    (hnr : w.NeverRefuses) (hfull : (∀ h s, W.ending ≠ .got h s) → ¬ CameShort w (W.world w)) :
    ∃ h s, W.ending = .got h s := by
  cases hend : W.ending with
  | got h s => exact ⟨h, s, rfl⟩
  | cut => exact absurd (cameShort_wait hW hend) (hfull (by simp [hend]))
  | refused rest => exact absurd (hW ▸ hend) (await_neverRefuses hnr _ _ _ _)

theorem alike_wait {t : Transaction} (htwin : Twin b b' w w') (hc : w.link.connected = true)
    {W : Wait} (hW : await w.abortF w.calls abort w.link.ptd = W) (hgot : W.ending = .got h s)
    (hfull : ¬ CameShort w (t.close W w).2) (hdone : t.listener.doneS w'.nc = t.doneS)
    (hfind : ∀ o, t.listener.finds { w'.nc with ongoing := o } h = none)
    (hfuel : W.answers.length < fuel) :
    t.Alike b b' (t.close W w) ((t.hearing fuel abort).run w') := by
  obtain ⟨k, rfl⟩ : ∃ k, fuel = k + 1 + W.answers.length := ⟨fuel - 1 - W.answers.length, by omega⟩
  obtain ⟨w₁, hrun, hc₁, hptd₁, htwin₁, o, hnc₁⟩ := drive_rounds t htwin hc hW hgot (k + 1)
  have hre := (await_got (hW.symm ▸ hgot)).1
  have hdone₁ : t.listener.doneS w₁.nc = t.doneS := by
    rw [hnc₁, ← hdone]
    cases t.listener with
    | rx v => cases v <;> rfl
    | _ => rfl
  rw [hrun]
  refine alike_close hc₁ hptd₁ hre (hnc₁ ▸ hfind o) hdone₁ hgot htwin₁ (fun s' he => hfull ?_) k
  have hfine := fine_wait hW hgot
  have hptd : (W.world w).link.ptd = s := by rw [Wait.world_got hgot]; rfl
  have hshort : s' = s ∧ s.length < t.sizeofDone := by
    unfold finish at he
    split at he
    next =>
      cases hd : split t.sizeofDone s with
      | none =>
        rw [hd] at he
        exact ⟨(Finish.endCut.inj he).symm, split_eq_none.mp hd⟩
      | some r => simp [hd] at he
    next => split at he <;> simp at he
  have hclose : (t.close W w).2 =
      ((W.world w).cut t.sizeofDone).stored t.doneS (leftover t.sizeofDone s) := by
    simp only [Transaction.close, hgot, he, Finish.world, hshort.1]
  rw [hclose]
  simp only [CameShort, claimed_stored, ← hfine.claimed]
  simp [PbDevState.claimed, Event.asked, hptd]
  omega

-- ---------------------------------------------------------------------------
-- Whole transactions
-- ---------------------------------------------------------------------------

def Transaction.Judges (t : Transaction) : Prop :=
  ∀ r f, t.reception = some r → r.devRxevalF = some f →
    ∀ calls done packet, f calls done packet = 0 ∨ f calls done packet = 1

theorem judges_accepts {t : Transaction} {r : Reception} (hj : t.Judges)
    (hr : t.reception = some r) (doneS : Addr) (w : World) :
    r.accepts doneS w = 0 ∨ r.accepts doneS w = 1 := by
  unfold Reception.accepts
  cases hf : r.devRxevalF with
  | none => exact .inr rfl
  | some f => exact hj r f hr hf _ _ _

@[simp] theorem judged_nc (r : Reception) (doneS : Addr) : (r.judged doneS w).nc = w.nc := by
  unfold Reception.judged
  cases r.devRxevalF <;> rfl

theorem answers_le {W : Wait} (hW : await w.abortF w.calls abort w.link.ptd = W)
    (hgot : W.ending = .got h s) : 4 * W.answers.length + 4 + s.length = w.link.ptd.length := by
  have h4 : sizeof PcHeader = 4 := rfl
  have hstream := congrArg List.length (await_got (hW.symm ▸ hgot)).2
  rw [hW] at hstream
  simp only [List.length_append, length_reevals, length_bytes, h4] at hstream
  omega

theorem sameLog_cont {t : Transaction} {r : Reception} (hr : t.reception = some r)
    (h : Twin b b w w') (abort : Abort) :
    ∃ c c', t.SameLog c c' ∧ Twin c c' (w.sent [.raw (bytes (verdict 1))])
      (w'.sent ((r.v.contAfterAddr true abort).events w'.mem)) := by
  rw [(contAfterAddr_events r.v abort w'.mem).2]
  cases hv : r.v with
  | v1 => exact ⟨b, b, .same b, h.sent _⟩
  | v2 =>
    obtain ⟨es, hl, hl'⟩ := h.log
    refine ⟨_, _, .cont (b ++ es) abort hr hv, h.connected, h.ptd, ⟨[], ?_, ?_⟩, h.abortF, h.mem,
      h.ptr, h.heap, h.calls⟩
    · simp [hl, verdict]
    · simp [hl']

theorem alike_verdict {t : Transaction} {r : Reception} (hr : t.reception = some r)
    (htwin : Twin b b w w') (hc : w.link.connected = true) (hev : w'.nc.ongoing = .rxHeaderEval)
    (hgot : w'.nc.weGotAddress = true) (hdone : r.v.doneS w'.nc = t.doneS) (hnr : w.NeverRefuses)
    (hj : t.Judges) (hfuel : w.link.ptd.length < fuel) :
    let acceptPacket := r.accepts t.doneS w
    let w₁ := (r.judged t.doneS w).sent [.raw (bytes (verdict acceptPacket))]
    let res := if acceptPacket = 1 then t.close (await w₁.abortF w₁.calls abort w₁.link.ptd) w₁
      else (.ok (r.v.addressfound.toInt32, abort), w₁)
    ¬ CameShort w res.2 → ∃ c c', t.SameLog c c' ∧ t.Alike c c' res
      ((do
        let acceptPacket ← evalRx r.v t.doneS r.rxBuf r.devRxevalF
        let ret ← (r.v.contAfterAddr (acceptPacket ≠ 0) abort).exec
        t.drive fuel ret abort : M (Int32 × Abort)).run w') := by
  intro acceptPacket w₁ res hfull
  obtain ⟨hacc, hjudged⟩ := htwin.judged r t.doneS
  have hcj : (r.judged t.doneS w').link.connected = true := by
    rw [judge_link, htwin.connected, hc]
  have hfine : Fine w w₁ := (fine_judged r t.doneS).trans (fine_sent rfl)
  rw [run_bind, run_evalRx, hacc]
  dsimp only
  obtain ha | ha : acceptPacket = 0 ∨ acceptPacket = 1 := judges_accepts hj hr t.doneS w
  · have hres : res = (.ok (r.v.addressfound.toInt32, abort), w₁) :=
      if_neg (by rw [ha]; decide)
    obtain ⟨k, rfl⟩ : ∃ k, fuel = k + 1 := ⟨fuel - 1, by omega⟩
    have hdec : decide (r.accepts t.doneS w ≠ 0) = false := by simpa using ha
    rw [hdec, run_bind, run_cont_reject hcj (by rw [judged_nc]; exact hev)]
    dsimp only
    rw [drive_zero, hres]
    refine ⟨b, b, .same b, by simp [Except.map, ncRet_addressfound hr], ?_⟩
    have hw₁ : w₁ = (r.judged t.doneS w).sent [.raw (bytes msgRxstop)] := by
      simp only [w₁, ha, verdict]
      rfl
    rw [hw₁]
    exact (hjudged.sent _).setNc _
  · have hres : res = t.close (await w₁.abortF w₁.calls abort w₁.link.ptd) w₁ := if_pos ha
    have hdec : decide (r.accepts t.doneS w ≠ 0) = true := by
      rw [show r.accepts t.doneS w = 1 from ha]
      rfl
    rw [hdec, run_bind, run_cont_accept hcj (by rw [judged_nc]; exact hev)]
    obtain ⟨c, c', hlog, htwin₁⟩ := sameLog_cont hr hjudged abort
    have hw₁ : w₁ = (r.judged t.doneS w).sent [.raw (bytes (verdict 1))] := by
      simp only [w₁, ha]
    rw [← hw₁] at htwin₁
    rw [hres] at hfull ⊢
    have hlis := (reception_spec hr).1
    refine ⟨c, c', hlog, ?_⟩
    have hfull₁ : ¬ CameShort w₁ (t.close (await w₁.abortF w₁.calls abort w₁.link.ptd) w₁).2 := by
      rwa [CameShort, ← hfine.claimed] at hfull
    have hnr₁ : w₁.NeverRefuses := by
      intro f hf
      exact hnr f (by simpa [w₁] using hf)
    have hc₁ : w₁.link.connected = true := by simpa [w₁] using hc
    obtain ⟨h, s, hend⟩ := wait_got (w := w₁) rfl hnr₁ fun hno => by
      rwa [close_not_got hno] at hfull₁
    have hlen := answers_le (w := w₁) rfl hend
    have hptd₁ : w₁.link.ptd.length = w.link.ptd.length := by simp [w₁]
    have hnc : ((r.judged t.doneS w').sent
        ((r.v.contAfterAddr true abort).events (r.judged t.doneS w').mem)).nc = w'.nc := by simp
    have hrounds : (await w₁.abortF w₁.calls abort w₁.link.ptd).answers.length < fuel := by omega
    have hclose := alike_wait htwin₁ hc₁ rfl hend hfull₁ (by rw [hnc, hlis]; exact hdone)
      (fun o => by rw [hnc, hlis]; simp [Listener.finds, hgot]) hrounds
    rwa [Transaction.hearing, run_bind, hlis] at hclose

theorem alike_afterFound {t : Transaction} {r : Reception} (hr : t.reception = some r)
    (htwin : Twin b b w (w'.took (sizeof PcHeader) s)) (hc : w.link.connected = true)
    (hptd : w.link.ptd = s) (hptd' : w'.link.ptd = bytes r.v.addressfound ++ s)
    (hreg : t.Registered r w'.nc) (hgot : w'.nc.weGotAddress = false) (hnr : w.NeverRefuses)
    (hj : t.Judges) (hfull : ¬ CameShort w (t.afterFound r abort w).2) (hfuel : s.length < fuel) :
    ∃ c c', t.SameLog c c' ∧
      t.Alike c c' (t.afterFound r abort w) ((t.hearing (fuel + 1) abort).run w') := by
  have hc' : w'.link.connected = true := htwin.connected.trans hc
  have hrun := run_hearing_found hr hc' hptd' hreg hgot fuel abort
  have hof := found_of r.v r.bufSize s
  have hcf := found_connected (w := w) (r.v.found r.bufSize s) r.v t.doneS r.rxBuf r.bufSize
  have htf := htwin.found (r.v.found r.bufSize s) r.v t.doneS r.rxBuf r.bufSize
  have hnc := found_nc (w := w'.took (sizeof PcHeader) s) (r.v.found r.bufSize s) r.v t.doneS
    r.rxBuf r.bufSize
  have habort := found_abortF (w := w) (r.v.found r.bufSize s) r.v t.doneS r.rxBuf r.bufSize
  unfold Transaction.afterFound at hfull ⊢
  rw [hptd] at hfull ⊢
  rw [hrun]
  dsimp only at hfull ⊢
  generalize r.v.found r.bufSize s = f at *
  cases hf : f.complete with
  | false => exact ⟨b, b, .same b, by simp [Except.map], htf⟩
  | true =>
    have hfine := fine_found (w := w) (hptd.symm ▸ hof) hf t.doneS r.rxBuf
    have hlen : (f.world r.v t.doneS r.rxBuf r.bufSize w).link.ptd.length ≤ s.length := by
      cases f with
      | whole done packet rest =>
        rw [Found.world, picked_ptd _ _ rfl, hof.1]
        simp
        omega
      | _ => simp [Found.complete] at hf
    rw [hf, hc] at hcf
    generalize f.world r.v t.doneS r.rxBuf r.bufSize w = w₁ at *
    generalize f.world r.v t.doneS r.rxBuf r.bufSize (w'.took (sizeof PcHeader) s) = w₁' at *
    simp only [hf, if_true] at hfull ⊢
    refine alike_verdict hr (htf.setNc _) hcf rfl rfl ?_ ?_ hj (by omega) ?_
    · rw [hnc, ← hreg.doneS]
      cases r.v <;> rfl
    · exact fun g hg => hnr g (habort ▸ hg)
    · rwa [CameShort, ← hfine.claimed] at hfull

theorem alike_proceed (t : Transaction) (hc : w.link.connected = true)
    (hidle : w.nc.ongoing = .nothing) (hnr : w.NeverRefuses) (hj : t.Judges)
    (hfull : ¬ CameShort w (t.proceed w).2) :
    ∃ c c', t.SameLog c c' ∧ t.Alike c c' (t.proceed w) (t.driver.run w) := by
  obtain ⟨hpass, hlis, hev, hdone⟩ := request_spec t
  have hdriver : t.driver.run w =
      (t.hearing (w.link.ptd.length + 1) t.abort).run (t.request.spoken w) := by
    rw [Transaction.driver, run_bind, run_get]
    dsimp only
    rw [run_bind, run_exec_listen hc _ ((passes_iff hpass).mpr hidle) hlis]
    rfl
  rw [hdriver]
  have hfine : Fine w (w.sent (t.message w.mem).events) := fine_sent (asked_events _)
  have htwin : Twin (w.sent (t.message w.mem).events).link.log
      (w.sent (t.message w.mem).events).link.log (w.sent (t.message w.mem).events)
      (t.request.spoken w) := by
    rw [NcReq.spoken, hev]
    exact (Twin.refl _).setNc _
  have hnc : (t.request.spoken w).nc = t.request.notes w.nc := rfl
  have hlen : (w.sent (t.message w.mem).events).link.ptd.length = w.link.ptd.length := rfl
  replace hnr : (w.sent (t.message w.mem).events).NeverRefuses := hnr
  replace hc : (w.sent (t.message w.mem).events).link.connected = true := hc
  generalize hw₀ : w.sent (t.message w.mem).events = w₀ at *
  generalize t.request.spoken w = w' at *
  generalize hW : await w₀.abortF w₀.calls t.abort w₀.link.ptd = W
  obtain ⟨h, s, hend⟩ := wait_got hW hnr fun hno => by
    rw [proceed_close hw₀ hW (fun h s r hend => absurd hend (hno h s)), close_not_got hno] at hfull
    rwa [CameShort, ← hfine.claimed] at hfull
  have hlenW := answers_le hW hend
  by_cases hf : ∃ r, t.reception = some r ∧ h = r.v.addressfound
  · obtain ⟨r, hr, rfl⟩ := hf
    obtain ⟨hlisr, hreg, hgot⟩ := reception_spec hr
    obtain ⟨k, hk⟩ : ∃ k, w.link.ptd.length + 1 = k + 1 + W.answers.length :=
      ⟨w.link.ptd.length - W.answers.length, by omega⟩
    obtain ⟨w₁, hrun, hc₁, hptd₁, htwin₁, o, hnc₁⟩ := drive_rounds t htwin hc hW hend (k + 1)
    have hfineW := fine_wait hW hend
    have hptdW : (W.world w₀).link.ptd = s := by rw [Wait.world_got hend]; rfl
    have hcW : (W.world w₀).link.connected = true := by rw [Wait.world_got hend]; exact hc
    have hnrW : (W.world w₀).NeverRefuses := by rw [Wait.world_got hend]; exact hnr
    rw [proceed_found hr hw₀ hW hend] at hfull ⊢
    have hfullW : ¬ CameShort (W.world w₀) (t.afterFound r W.abort (W.world w₀)).2 := by
      rwa [CameShort, ← (hfine.trans hfineW).claimed] at hfull
    rw [hnc] at hnc₁
    rw [hk, hrun]
    refine alike_afterFound hr htwin₁ hcW hptdW hptd₁ ?_ ?_ hnrW hj hfullW (by omega)
    · rw [hnc₁]
      refine ⟨?_, (hreg w.nc).rxbuf, (hreg w.nc).bufsize⟩
      rw [← (hreg w.nc).doneS]
      cases r.v <;> rfl
    · rw [hnc₁]
      exact hgot w.nc
  · have hnf : ∀ r, t.reception = some r → h ≠ r.v.addressfound := fun r hr hh => hf ⟨r, hr, hh⟩
    rw [proceed_close hw₀ hW fun h' s' r hend' hr =>
      (Ending.got.inj (hend.symm.trans hend')).1 ▸ hnf r hr] at hfull ⊢
    have hfull₀ : ¬ CameShort w₀ (t.close W w₀).2 := by
      rwa [CameShort, ← hfine.claimed] at hfull
    refine ⟨_, _, .same _, alike_wait htwin hc hW hend hfull₀ ?_ (fun o => ?_) (by omega)⟩
    · rw [hnc]
      exact hdone w.nc
    · exact finds_eq_none hnf _

theorem alike_closed (t : Transaction) (hc : w.link.connected = false) :
    t.Alike w.link.log w.link.log (.ok (-1, t.abort), w) (t.driver.run w) := by
  have hdriver : t.driver.run w = (.ok (-1, t.abort), w) := by
    rw [Transaction.driver, run_bind, run_get]
    dsimp only
    rw [run_bind, run_exec_closed hc]
    exact drive_minus_one t _ _
  rw [hdriver]
  exact ⟨by simp [Except.map], .refl w⟩

/-- The family with callbacks refines the other: started idle, the blocking call
and the driver end alike, whatever bytes the phy sends, if no read comes
short, the abort callback never refuses and the verdicts are 0 or 1. -/
theorem driver_refines (t : Transaction) (hidle : w.nc.ongoing = .nothing) (hnr : w.NeverRefuses)
    (hj : t.Judges) (hfull : ¬ CameShort w (t.blocking.run w).2) :
    ∃ c c', t.SameLog c c' ∧ t.Alike c c' (t.blocking.run w) (t.driver.run w) := by
  cases hc : w.link.connected with
  | true =>
    rw [run_blocking_open hc] at hfull ⊢
    exact alike_proceed t hc hidle hnr hj hfull
  | false =>
    rw [run_blocking_closed hc]
    exact ⟨_, _, .same _, alike_closed t hc⟩

end

end PhyCom2G4

namespace PhyCom2G4

open Bytes Program Program.Prog

attribute [local instance] LibPhyCom.posix

/-- A v2 reception for an address, with a re-evaluation before a packet of two bytes,
which the callback accepts, and one after it. -/
theorem driver_refines_rxv2 :
    let rxS : Rxv2 := { (parse [] : Rxv2) with scanDuration := 1000, nAddr := 1 }
    let rxDone : Rxv2Done := { (parse [] : Rxv2Done) with status := 1, packetSize := 2 }
    let t := Transaction.rxv2 rxS 8 16 64 0
      (some fun _ _ packet => if packet = [7, 9] then 1 else 0)
    let w := World.start (bytes msgAbortreeval ++ bytes msgRxv2Addressfound ++
      bytes rxDone ++ [7, 9] ++ bytes msgAbortreeval ++ bytes msgRxv2End ++ bytes rxDone)
    ∃ c c', t.SameLog c c' ∧ t.Alike c c' (t.blocking.run w) (t.driver.run w) := by
  intro rxS rxDone t w
  refine driver_refines t rfl (fun _ h => by cases h) ?_
    (show ¬ ((_ : Nat) < _) by decide +kernel)
  intro r f hr hf calls done packet
  cases hr
  cases hf
  by_cases hp : packet = [7, 9] <;> simp [hp]

end PhyCom2G4
