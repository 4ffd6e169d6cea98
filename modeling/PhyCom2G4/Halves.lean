import PhyCom2G4.Schedules

/-!
# Transmissions in two halves

A v1 or v2 transmission with callbacks can be requested by one call and its answer
picked up by another, so that the program may use its memory in between, the
packet included. `send` is such a transmission and such a use. In any run, made in
two halves they return and leave what the blocking calls do just when no
answer begins with a re-evaluation or comes short in its header (`halves_iff`).
-/

namespace PhyCom2G4

open Bytes Memory Runs Program Program.Prog LibPhyCom

variable [LibPhyCom]

-- ---------------------------------------------------------------------------
-- Halves
-- ---------------------------------------------------------------------------

def Transaction.halves : Transaction → Option (CbReq × CbReq)
  | .tx txS packet txDoneS => some (.txNoWait txS packet, .pickTxresp txDoneS)
  | .txv2 txS packet txDoneS => some (.txv2NoWait txS packet, .pickTxresp txDoneS)
  | _ => none

inductive Deed
  | act (a : Act)
  /-- A transaction, and `bs` to store once its request is made. -/
  | send (t : Transaction) (p : Addr) (bs : List Byte)
  /-- The phy writes. -/
  | phy (bs : List Byte)

def sendWhole (t : Transaction) (p : Addr) (bs : List Byte) (w : World) :
    Except Stop Int32 × World :=
  let r := (CbReq.transaction t).exec.run w
  (r.1, r.2.stored p bs)

def sendHalves (req pick : CbReq) (p : Addr) (bs : List Byte) (w : World) :
    Except Stop Int32 × World :=
  pick.exec.run ((req.exec.run w).2.stored p bs)

def Deed.exec : Deed → World → Except Stop Int32 × World
  | .act a, w => a.exec w
  | .send t p bs, w => sendWhole t p bs w
  | .phy bs, w => (.ok 0, w.ahead bs)

def Deed.execHalves : Deed → World → Except Stop Int32 × World
  | .send t p bs, w => match t.halves with
    | some (req, pick) => sendHalves req pick p bs w
    | none => sendWhole t p bs w
  | d, w => d.exec w

/-- The answer begins with a whole header, and not that of a re-evaluation. -/
def World.AnswersAtOnce (w : World) : Prop :=
  ∃ h rest, w.link.ptd = bytes h ++ rest ∧ h ≠ msgAbortreeval

def Deed.AtOnce : Deed → World → Prop
  | .send t _ _, w => t.halves.isSome → w.link.connected = true → w.AnswersAtOnce
  | _, _ => True

def Deed.Apart : Deed → World → Prop
  | .send t p bs, _ => ∀ a, InRange p bs.length a → ¬ InRange t.doneS t.sizeofDone a
  | _, _ => True

-- ---------------------------------------------------------------------------
-- One transmission
-- ---------------------------------------------------------------------------

section
variable {w : World}

theorem halves_spec {t : Transaction} (h : t.halves = some (req, pick)) :
    req.message w.mem = some (t.message w.mem) ∧ (∀ w, req.proceed w = (.ok 0, req.spoken w)) ∧
      pick = .pickTxresp t.doneS ∧ t.reception = none ∧ t.endMsg = msgTxEnd ∧
      t.sizeofDone = sizeof TxDone ∧ t.endRet = 0 := by
  cases t <;>
    simp only [Transaction.halves, Option.some.injEq, Prod.mk.injEq, reduceCtorEq] at h <;>
    obtain ⟨rfl, rfl⟩ := h <;> exact ⟨rfl, fun _ => rfl, rfl, rfl, rfl, rfl, rfl⟩

theorem length_finish (h : finish endMsg size hd s = .ended done rest) : done.length = size := by
  unfold finish at h
  split at h
  next =>
    cases hs : split size s with
    | none => simp [hs] at h
    | some r =>
      simp only [hs, Finish.ended.injEq] at h
      exact h.1 ▸ (split_eq_some.mp hs).2
  next => split at h <;> cases h

theorem pickTx_stored (hap : ∀ a, InRange p bs.length a → ¬ InRange doneS (sizeof TxDone) a) :
    pickTx doneS (w.stored p bs) = ((pickTx doneS w).1, (pickTx doneS w).2.stored p bs) := by
  have hcomm : ∀ {w : World} {done : List Byte}, done.length ≤ sizeof TxDone →
      (w.stored p bs).stored doneS done = (w.stored doneS done).stored p bs := by
    intro w done hl
    simp only [World.stored]
    rw [store_comm _ fun a ha hin => hap a ha ⟨hin.1, by have := hin.2; omega⟩]
  unfold pickTx
  rw [show (w.stored p bs).link = w.link from rfl]
  cases split (sizeof PcHeader) w.link.ptd with
  | none => rfl
  | some r =>
    refine Prod.ext rfl ?_
    dsimp only
    cases hf : finish msgTxEnd (sizeof TxDone) (parse r.1) r.2 with
    | ended done rest =>
      exact hcomm (w := (w.took _ r.2).took _ rest) (Nat.le_of_eq (length_finish hf))
    | endCut s' => exact hcomm (w := (w.took _ r.2).cut _) (length_leftover _ _)
    | disconnect => rfl
    | invalid => rfl

/-- The end of a transmission is what its second half picks up, if it comes at once. -/
theorem close_atOnce {t : Transaction} (hmsg : t.endMsg = msgTxEnd)
    (hsize : t.sizeofDone = sizeof TxDone) (hret : t.endRet = 0) (h : w.AnswersAtOnce) :
    let r := t.close (await w.abortF w.calls abort w.link.ptd) w
    pickTx t.doneS w = (r.1.map Prod.fst, r.2) := by
  obtain ⟨hd, rest, hptd, hne⟩ := h
  have hsplit : split (sizeof PcHeader) w.link.ptd = some (bytes hd, rest) :=
    hptd ▸ split_bytes hd rest
  have hW : await w.abortF w.calls abort w.link.ptd = _ := await_header hsplit
  rw [parse_bytes, if_neg hne] at hW
  unfold Transaction.close pickTx
  simp only [hsplit, hW, parse_bytes, hmsg, hsize, hret]
  rw [Wait.world_got rfl, answered_nil]
  cases finish msgTxEnd (sizeof TxDone) hd rest <;> rfl

theorem close_not_atOnce {t : Transaction} (h : ¬ w.AnswersAtOnce) :
    (pickTx t.doneS w).1 ≠
      (t.close (await w.abortF w.calls abort w.link.ptd) w).1.map Prod.fst := by
  unfold pickTx
  cases hs : split (sizeof PcHeader) w.link.ptd with
  | none =>
    have hcut : await w.abortF w.calls abort w.link.ptd = _ := await_cut hs
    rw [close_not_got (by simp [hcut])]
    simp [Except.map]
  | some r =>
    obtain ⟨hb, rest⟩ := r
    obtain ⟨hd, rfl, hptd⟩ := split_sizeof hs
    obtain rfl : hd = msgAbortreeval := by
      by_contra hne
      exact h ⟨hd, rest, hptd, hne⟩
    have hpick : finish msgTxEnd (sizeof TxDone) msgAbortreeval rest = .invalid :=
      (if_neg (by decide)).trans (if_neg abortreeval_ne_disconnect)
    have hgot : ∀ hd' rest', (await w.abortF w.calls abort w.link.ptd).ending = .got hd' rest' →
        hd' ≠ msgAbortreeval := fun hd' rest' he => (await_got he).1
    generalize await w.abortF w.calls abort w.link.ptd = W at hgot ⊢
    simp only [parse_bytes, hpick, Finish.ret, Transaction.close]
    cases hend : W.ending with
    | got hd' rest' =>
      have hne := hgot hd' rest' hend
      dsimp only
      cases finish t.endMsg t.sizeofDone hd' rest' <;>
        simp [Except.map, Ne.symm hne]
    | _ => simp [Except.map]; decide

theorem run_send {t : Transaction} (hh : t.halves = some (req, pick))
    (hc : w.link.connected = true) (hap : (Deed.send t p bs).Apart w) :
    let w₀ := w.sent (t.message w.mem).events
    let r := t.close (await w₀.abortF w₀.calls t.abort w₀.link.ptd) w₀
    sendHalves req pick p bs w = ((pickTx t.doneS w₀).1, (pickTx t.doneS w₀).2.stored p bs) ∧
      sendWhole t p bs w = (r.1.map Prod.fst, r.2.stored p bs) := by
  obtain ⟨hmsg, hreq, rfl, hrec, -, hsize, -⟩ := halves_spec (w := w) hh
  have hspoken : req.spoken w = w.sent (t.message w.mem).events := by
    simp only [CbReq.spoken, hmsg]
  constructor
  · unfold sendHalves
    rw [run_cb_open hc, hreq, hspoken, run_cb_open (by exact hc)]
    exact pickTx_stored (hsize ▸ hap)
  · unfold sendWhole
    rw [run_cb_open hc]
    simp only [CbReq.proceed, Transaction.proceed, hrec]

theorem halves_agree (d : Deed) (w : World) (hap : d.Apart w) (hok : d.AtOnce w) :
    d.execHalves w = d.exec w := by
  cases d with
  | act | phy => rfl
  | send t p bs =>
    simp only [Deed.execHalves, Deed.exec]
    cases hh : t.halves with
    | none => rfl
    | some r =>
      obtain ⟨req, pick⟩ := r
      obtain ⟨-, -, -, -, hend, hsize, hret⟩ := halves_spec (w := w) hh
      cases hc : w.link.connected with
      | true =>
        obtain ⟨hhalves, hwhole⟩ := run_send hh hc hap
        have hat : (w.sent (t.message w.mem).events).AnswersAtOnce := hok (by rw [hh]; rfl) hc
        dsimp only
        rw [hhalves, hwhole, close_atOnce hend hsize hret hat]
      | false =>
        simp only [sendHalves, sendWhole, run_cb_closed hc]
        exact run_cb_closed (by exact hc) pick

theorem halves_differ (d : Deed) (w : World) (hap : d.Apart w) (hbad : ¬ d.AtOnce w) :
    (d.execHalves w).1 ≠ (d.exec w).1 := by
  cases d with
  | act | phy => exact absurd trivial hbad
  | send t p bs =>
    simp only [Deed.AtOnce, Classical.not_imp] at hbad
    obtain ⟨hsome, hc, hnot⟩ := hbad
    obtain ⟨⟨req, pick⟩, hh⟩ := Option.isSome_iff_exists.mp hsome
    obtain ⟨hhalves, hwhole⟩ := run_send hh hc hap
    simp only [Deed.execHalves, Deed.exec, hh, hhalves, hwhole]
    exact close_not_atOnce hnot

/-- Transmissions made in halves, in any run: they go as the blocking calls just when the
phy answers each of them at once. -/
theorem halves_iff (deeds : List Deed) (w : World)
    (hap : Along (fun d w => (d.exec w).2) Deed.Apart deeds w) :
    (outputs Deed.execHalves deeds w = outputs Deed.exec deeds w ∧
        last Deed.execHalves deeds w = last Deed.exec deeds w) ↔
      Along (fun d w => (d.exec w).2) Deed.AtOnce deeds w :=
  outputs_eq_iff halves_agree halves_differ hap

end

end PhyCom2G4

namespace PhyCom2G4

open Bytes Memory Runs Program Program.Prog

attribute [local instance] LibPhyCom.posix

/-- The packet is written over while it is sent, and the next transmission is put off. -/
theorem halves_iff_tx :
    let deeds : List Deed := [.phy (bytes msgTxEnd ++ bytes (parse [] : TxDone)),
      .send (.tx (parse []) 0 64) 0 [1, 2, 3], .phy (bytes msgAbortreeval),
      .send (.txv2 (parse []) 0 64) 0 [4]]
    (outputs Deed.execHalves deeds (World.start []) = outputs Deed.exec deeds (World.start []) ∧
        last Deed.execHalves deeds (World.start []) = last Deed.exec deeds (World.start [])) ↔
      Along (fun d w => (d.exec w).2) Deed.AtOnce deeds (World.start []) := by
  have hlow : ∀ {n m a : Nat}, n ≤ 64 → InRange 0 n a → ¬ InRange 64 m a := by
    intro n m a hn ha hin
    have := ha.2
    have := hin.1
    omega
  exact halves_iff _ _ ⟨trivial, fun a => hlow (by decide), trivial, fun a => hlow (by decide),
    trivial⟩

end PhyCom2G4
