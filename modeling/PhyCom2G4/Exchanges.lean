import PhyCom2G4.Conversations
import PhyCom2G4.Schedules

/-!
# A blocking call and its phy

A call of the family with callbacks holds a conversation of any length with the
phy before it returns. What it leaves is told by that conversation alone: the
events on the FIFOs are those of its words, in their order, and the memory,
the value returned and the end of the link those of its answers
(`concludes_exec`).
-/

namespace PhyCom2G4

open Bytes Memory Wire Dialogue Program Program.Prog Runs LibPhyCom

variable [LibPhyCom]

abbrev Words := List (Word DevMsg PhyMsg)

-- ---------------------------------------------------------------------------
-- What the words of a conversation come to
-- ---------------------------------------------------------------------------

/-- The writes of a message; a verdict on a packet is a bare header. -/
def DevMsg.writes : DevMsg → List Event
  | .rxcont => [.raw (bytes msgRxcont)]
  | .rxstop => [.raw (bytes msgRxstop)]
  | m => m.events

def PhyMsg.sizeofDone : PhyMsg → Option Nat
  | .txEnd _ => some (sizeof TxDone)
  | .immrssiRrsiDone _ | .rssiEnd _ => some (sizeof RssiDone)
  | .addressfound v _ _ | .rxEnd v _ => some v.sizeofDone
  | .ccaEnd _ => some (sizeof CcaDone)
  | .abortreeval | .waitEnd | .disconnect => none

def PhyMsg.reads (bufSize : Nat) (m : PhyMsg) : List Event :=
  .read (sizeof PcHeader) ::
    (m.sizeofDone.toList.map .read ++ if m.tooBig bufSize then [] else packetReads m.packet)

def wordEvents (bufSize : Nat) : Word DevMsg PhyMsg → List Event
  | .ask m => m.writes
  | .answer m => m.reads bufSize

def PhyMsg.cbRet (bufSize : Nat) : PhyMsg → Int32
  | .txEnd _ | .ccaEnd _ => 0
  | m => m.ret bufSize

def concludes (bufSize : Nat) (as : List PhyMsg) : Except Stop Int32 :=
  match as.getLast? with
  | none => .ok (-1)
  | some .abortreeval => .error (.invalidResp (-1))
  | some m => .ok (m.cbRet bufSize)

def Transaction.rxBuf (t : Transaction) : Addr := (t.reception.map Reception.rxBuf).getD 0

def Transaction.bufSize (t : Transaction) : Nat := (t.reception.map Reception.bufSize).getD 0

def CbReq.blocks : CbReq → Bool
  | .transaction _ | .rssi .. | .rssiv2 .. | .wait _ => true
  | _ => false

def CbReq.fills : CbReq → Addr
  | .transaction t => t.doneS
  | c => c.doneS

def CbReq.rxBuf : CbReq → Addr
  | .transaction t => t.rxBuf
  | _ => 0

def CbReq.bufSize : CbReq → Nat
  | .transaction t => t.bufSize
  | _ => 0

/-- The words `ws` are exchanged between `w` and `w'`: done structures go to `doneS`, and
a packet to the buffer of `bufSize` bytes that the device keeps at `rxBuf`. -/
structure Exchanged (bufSize : Nat) (doneS rxBuf : Addr) (w : World) (ws : Words) (w' : World) :
    Prop where
  log : w'.link.log = w.link.log ++
    (ws.flatMap (wordEvents bufSize) ++ if w'.link.connected then [] else [.closed])
  store : w'.store = (answers ws).foldl (fun s m => m.stored bufSize doneS rxBuf s) w.store

/-- A call that goes as `r` holds the conversation `ws`. -/
structure Concluded (bufSize : Nat) (doneS rxBuf : Addr) (p : Phy) (w : World) (ws : Words)
    (r : Except Stop Int32 × World) : Prop extends Exchanged bufSize doneS rxBuf w ws r.2 where
  ret : r.1 = concludes bufSize (answers ws)
  refused : Refused w r.2 ↔ (answers ws).getLast? = some .abortreeval
  opened : r.2.link.connected = true → r.2.link.ptd = [] ∧ phyServer.after p ws = .idle
  closed : r.2.link.connected = false → phyServer.after p ws = .off
  parted : Refused w r.2 → r.2.link.connected = false

section
variable {bufSize : Nat} {doneS rxBuf : Addr} {p q : Phy} {w w₁ w' : World} {ws ws' : Words}
  {r : Except Stop Int32 × World} {m : PhyMsg}

theorem Exchanged.trans (h : Exchanged bufSize doneS rxBuf w ws w₁)
    (hc : w₁.link.connected = true) (h' : Exchanged bufSize doneS rxBuf w₁ ws' w') :
    Exchanged bufSize doneS rxBuf w (ws ++ ws') w' where
  log := by simp [h'.log, h.log, hc]
  store := by rw [h'.store, h.store, answers_append, List.foldl_append]

theorem Concluded.after (h : Exchanged bufSize doneS rxBuf w ws w₁)
    (hc : w₁.link.connected = true)
    (hcalls : w₁.calls.countP Callback.refuses = w.calls.countP Callback.refuses)
    (hne : answers ws' ≠ []) (h' : Concluded bufSize doneS rxBuf (phyServer.after p ws) w₁ ws' r) :
    Concluded bufSize doneS rxBuf p w (ws ++ ws') r := by
  have hlast : (answers (ws ++ ws')).getLast? = (answers ws').getLast? := by
    rw [answers_append, List.getLast?_append_of_ne_nil _ hne]
  refine ⟨h.trans hc h'.toExchanged, ?_, ?_, ?_, ?_, ?_⟩
  · rw [h'.ret, concludes, concludes, hlast]
  · rw [hlast, ← h'.refused, refused_congr hcalls]
  · rw [Server.after_append]
    exact h'.opened
  · rw [Server.after_append]
    exact h'.closed
  · rw [refused_congr hcalls]
    exact h'.parted

-- ---------------------------------------------------------------------------
-- A wait
-- ---------------------------------------------------------------------------

def reevalWords (as : List Abort) : Words :=
  as.flatMap fun a => [.answer .abortreeval, .ask (.rerespAbortreeval a)]

theorem stream_answer_cons (m : PhyMsg) (ws : Words) :
    phyServer.stream (.answer m :: ws) =
      bytes m.header ++ (m.done ++ m.packet ++ phyServer.stream ws) := by
  rw [Server.stream_answer]
  exact List.append_assoc _ _ _

theorem header_of_busy {k : Kind} (ha : (Phy.busy k).Answers m q) :
    m = .abortreeval ∧ q = .reeval k ∨ m.header ≠ msgAbortreeval := by
  generalize hp : Phy.busy k = p at ha
  cases ha with
  | abortreeval k' =>
    obtain rfl := Phy.busy.inj hp
    exact .inl ⟨rfl, rfl⟩
  | txEnd | ccaEnd => exact .inr (by simp only [PhyMsg.header]; decide)
  | addressfound v => exact .inr (addressfound_ne_abortreeval v)
  | rxEnd v => exact .inr (rxEnd_ne_abortreeval v)
  | disconnect => exact .inr (Ne.symm abortreeval_ne_disconnect)
  | _ => cases hp

inductive Waited (k : Kind) (W : Wait) (ms : List DevMsg) : Words → Prop
  | got (m : PhyMsg) (q : Phy) (ws : Words) (ha : (Phy.busy k).Answers m q)
    (hm : m.header ≠ msgAbortreeval) (hend : W.ending =
      .got m.header (m.done ++ m.packet ++ phyServer.stream ws)) (hq : phyServer.Orderly q ws)
    (hms : asks ws = ms) : Waited k W ms (reevalWords W.answers ++ .answer m :: ws)
  | refused (ws : Words) (hend : W.ending = .refused (phyServer.stream ws))
    (hq : phyServer.Orderly .off ws) (hms : asks ws = ms) :
    Waited k W ms (reevalWords W.answers ++ .answer .abortreeval :: .ask .disconnect :: ws)

theorem Waited.reeval {k : Kind} {W : Wait} (h : Waited k W ms ws) (a : Abort) :
    Waited k { W with answers := a :: W.answers } ms
      (.answer .abortreeval :: .ask (.rerespAbortreeval a) :: ws) := by
  cases h with
  | got m q ws ha hm hend hq hms => exact .got m q ws ha hm hend hq hms
  | refused ws hend hq hms => exact .refused ws hend hq hms

/-- The wait takes the re-evaluations of the phy, and is heard to answer them, until
it is told something else or refuses. -/
theorem await_words {k : Kind} {f : Option DevAbortReevalF} {calls : List Callback}
    {abort : Abort} (hord : phyServer.Orderly (.busy k) ws)
    (hasks : asks ws = (await f calls abort (phyServer.stream ws)).said ++ ms) :
    Waited k (await f calls abort (phyServer.stream ws)) ms ws := by
  induction hn : ws.length using Nat.strongRecOn generalizing ws calls abort with
  | ind n ih =>
  subst hn
  obtain ⟨m, q, ws₁, rfl, ha, hq⟩ := hord.answer_first rfl
  have hhead : await f calls abort _ = _ :=
    await_header (split_bytes m.header (m.done ++ m.packet ++ phyServer.stream ws₁))
  rw [← stream_answer_cons, parse_bytes] at hhead
  rcases header_of_busy (answers_of_answer ha) with ⟨rfl, rfl⟩ | hne
  · have hheader : PhyMsg.header .abortreeval = msgAbortreeval := rfl
    rw [if_pos hheader] at hhead
    by_cases hret : (asked f calls abort).1 = 0
    · rw [if_pos hret] at hhead
      rw [hhead] at hasks ⊢
      obtain ⟨ws₂, rfl, hord₂, hasks₂⟩ := hq.ask_first rfl hasks
      exact (ih _ (by simp only [List.length_cons]; omega) hord₂ hasks₂ rfl).reeval _
    · rw [if_neg hret] at hhead
      rw [hhead] at hasks ⊢
      obtain ⟨ws₂, rfl, hord₂, hasks₂⟩ := hq.ask_first rfl hasks
      exact .refused ws₂ rfl hord₂ hasks₂
  · rw [if_neg hne] at hhead
    rw [hhead] at hasks ⊢
    exact .got m q ws₁ (answers_of_answer ha) hne rfl hq hasks

theorem events_reevalWords (bufSize : Nat) (as : List Abort) :
    (reevalWords as).flatMap (wordEvents bufSize) = answerEvents as := by
  induction as with
  | nil => rfl
  | cons a as ih => exact congrArg (_ :: _ :: ·) ih

theorem answers_reevalWords (as : List Abort) :
    answers (reevalWords as) = List.replicate as.length .abortreeval := by
  induction as with
  | nil => rfl
  | cons a as ih => exact congrArg (_ :: ·) ih

@[simp] theorem stored_abortreeval (bufSize : Nat) (doneS rxBuf : Addr) (s : Regions.Store) :
    PhyMsg.stored bufSize doneS rxBuf .abortreeval s = s := by
  simp [PhyMsg.stored, PhyMsg.done, PhyMsg.packet, Regions.Store.write_nil]

theorem stored_reevals (bufSize : Nat) (doneS rxBuf : Addr) (s : Regions.Store) (n : Nat) :
    (List.replicate n PhyMsg.abortreeval).foldl
      (fun s m => m.stored bufSize doneS rxBuf s) s = s := by
  induction n with
  | zero => rfl
  | succ n ih => rw [List.replicate_succ, List.foldl_cons, stored_abortreeval, ih]

theorem exchanged_answered (hc : w.link.connected = true) (W : Wait) :
    Exchanged bufSize doneS rxBuf w (reevalWords W.answers) (W.answered w) where
  log := by
    rw [events_reevalWords]
    simp [hc]
  store := by
    rw [answers_reevalWords, stored_reevals]
    rfl

theorem after_reevalWords (k : Kind) (as : List Abort) :
    phyServer.after (.busy k) (reevalWords as) = .busy k := by
  induction as with
  | nil => rfl
  | cons a as ih => exact ih

-- ---------------------------------------------------------------------------
-- The end of a transaction
-- ---------------------------------------------------------------------------

def Transaction.kind (found : Bool) : Transaction → Kind
  | .tx .. | .txv2 .. | .tx2v1 .. => .tx
  | .cca .. | .ccav2 .. => .cca
  | .rx .. => .rx .v1 found
  | .rxv2 .. | .rx2v1 .. => .rx .v2 found

inductive Transaction.KindOf (t : Transaction) (found : Bool) : Kind → Prop
  | tx (hm : t.endMsg = msgTxEnd) (hs : t.sizeofDone = sizeof TxDone) (hr : t.endRet = 0) :
    KindOf t found .tx
  | cca (hm : t.endMsg = msgCcaEnd) (hs : t.sizeofDone = sizeof CcaDone) (hr : t.endRet = 0) :
    KindOf t found .cca
  | rx (r : Reception) (hrec : t.reception = some r) (hm : t.endMsg = r.v.rxEnd)
    (hs : t.sizeofDone = r.v.sizeofDone) (hr : t.endRet = r.v.rxEnd.toInt32) :
    KindOf t found (.rx r.v found)

theorem kindOf (t : Transaction) (found : Bool) : t.KindOf found (t.kind found) := by
  cases t with
  | tx | txv2 | tx2v1 => exact .tx rfl rfl rfl
  | cca | ccav2 => exact .cca rfl rfl rfl
  | rx s d buf size eval => exact .rx ⟨.v1, buf, size, eval⟩ rfl rfl rfl rfl
  | rxv2 s a d buf size eval | rx2v1 s a d buf size eval =>
    exact .rx ⟨.v2, buf, size, eval⟩ rfl rfl rfl rfl

theorem finish_answer {t : Transaction} (ha : (Phy.busy (t.kind found)).Answers m q)
    (hre : m.header ≠ msgAbortreeval)
    (hnf : ∀ r, t.reception = some r → m.header ≠ r.v.addressfound) :
    m = .disconnect ∧ q = .off ∨
      q = .idle ∧ m.header = t.endMsg ∧ m.packet = [] ∧ m.sizeofDone = some t.sizeofDone ∧
        m.done.length = t.sizeofDone ∧ m ≠ .abortreeval ∧
          ∀ bufSize, m.cbRet bufSize = t.endRet ∧ m.tooBig bufSize = false := by
  have hk := kindOf t found
  generalize t.kind found = k at ha hk
  cases hk with
  | tx hm hs hr =>
    cases ha with
    | abortreeval => exact absurd rfl hre
    | txEnd done =>
      exact .inr ⟨rfl, hm.symm, rfl, by rw [hs]; rfl, by rw [hs]; exact length_bytes done, by simp,
        fun _ => ⟨hr.symm, rfl⟩⟩
    | disconnect => exact .inl ⟨rfl, rfl⟩
  | cca hm hs hr =>
    cases ha with
    | abortreeval => exact absurd rfl hre
    | ccaEnd done =>
      exact .inr ⟨rfl, hm.symm, rfl, by rw [hs]; rfl, by rw [hs]; exact length_bytes done, by simp,
        fun _ => ⟨hr.symm, rfl⟩⟩
    | disconnect => exact .inl ⟨rfl, rfl⟩
  | rx r hrec hm hs hr =>
    cases ha with
    | abortreeval => exact absurd rfl hre
    | addressfound => exact absurd rfl (hnf r hrec)
    | rxEnd v found done =>
      exact .inr ⟨rfl, hm.symm, rfl, by rw [hs]; rfl,
        by rw [hs]; exact (length_bytes done).trans (sizeof_done _), by simp,
        fun _ => ⟨hr.symm, rfl⟩⟩
    | disconnect => exact .inl ⟨rfl, rfl⟩

theorem endMsg_ne_disconnect (t : Transaction) : t.endMsg ≠ msgDisconnect :=
  ends_ne_disconnect (a := t.awaited) (by rw [awaited_ends]; exact List.mem_singleton_self _)

theorem after_answer (ha : p.Answers m q) : phyServer.after p [.answer m] = q :=
  Server.hear_answer (S := phyServer) (answer_of_answers ha)

theorem concluded_finish (bufSize : Nat) (rxBuf : Addr) {t : Transaction}
    (hc : w.link.connected = true)
    (ha : (Phy.busy (t.kind found)).Answers m q) (hre : m.header ≠ msgAbortreeval)
    (hnf : ∀ r, t.reception = some r → m.header ≠ r.v.addressfound) :
    let s := m.done ++ m.packet ++ phyServer.stream []
    let f := finish t.endMsg t.sizeofDone m.header s
    Concluded bufSize t.doneS rxBuf (.busy (t.kind found)) w [.answer m]
      (f.ret t.endRet m.header,
        f.world t.sizeofDone t.doneS (w.took (sizeof PcHeader) s)) := by
  have hafter := after_answer ha
  rcases finish_answer ha hre hnf with ⟨rfl, rfl⟩ | ⟨rfl, hend, hpk, hsize, hlen, hne, hret⟩
  · have hf : ∀ s, finish t.endMsg t.sizeofDone (PhyMsg.header .disconnect) s = .disconnect :=
      fun s => (if_neg (Ne.symm (endMsg_ne_disconnect t))).trans (if_pos rfl)
    simp only [hf]
    refine ⟨⟨?_, ?_⟩, rfl, ?_, fun h => by simp [Finish.world] at h, fun _ => hafter,
      fun _ => rfl⟩
    · simp [Finish.world, wordEvents, PhyMsg.reads, PhyMsg.sizeofDone, PhyMsg.tooBig,
        PhyMsg.packet, packetReads]
    · simp [Finish.world, PhyMsg.stored, PhyMsg.done, PhyMsg.packet, Regions.Store.write_nil]
    · exact iff_of_false (not_refused rfl) (by simp)
  · have hf : finish t.endMsg t.sizeofDone m.header (m.done ++ m.packet ++ phyServer.stream []) =
        .ended m.done [] := by
      rw [finish, if_pos hend, hpk, List.append_nil, split_append hlen]
      rfl
    obtain ⟨hcb, hbig⟩ := hret bufSize
    have hlast : concludes bufSize [m] = .ok (m.cbRet bufSize) := by
      cases m <;> first | rfl | exact absurd rfl hne
    simp only [hf]
    refine ⟨⟨?_, ?_⟩, ?_, ?_, fun _ => ⟨rfl, hafter⟩, fun h => ?_,
      fun h => absurd h (not_refused rfl)⟩
    · simp [Finish.world, wordEvents, PhyMsg.reads, hsize, hbig, hpk, packetReads, hc]
    · simp [Finish.world, PhyMsg.stored, hpk]
    · simp [Finish.ret, hlast, hcb]
    · exact iff_of_false (not_refused rfl) (by simpa using hne)
    · simp [Finish.world, hc] at h

theorem header_ne_addressfound {t : Transaction} (ha : (Phy.busy (t.kind true)).Answers m q)
    (v : RxVersion) : m.header ≠ v.addressfound := by
  have hfound : ∀ v, t.kind true ≠ .rx v false := by cases t <;> simp [Transaction.kind]
  generalize t.kind true = k at ha hfound
  cases ha with
  | abortreeval => exact Ne.symm (addressfound_ne_abortreeval v)
  | txEnd | ccaEnd => cases v <;> simp only [PhyMsg.header] <;> decide
  | addressfound v' => exact absurd rfl (hfound v')
  | rxEnd v' => exact rxEnd_ne_addressfound v' v
  | disconnect => exact Ne.symm (addressfound_ne_disconnect v)

theorem refused_wait {W : Wait} {f : Option DevAbortReevalF} {abort : Abort}
    (hW : await f w.calls abort w.link.ptd = W) (hend : W.ending = .refused rest) :
    Refused w (W.world w) := by
  obtain ⟨s', cs, -, -, hcalls, hasked⟩ := await_of f w.calls abort w.link.ptd
  rw [hW] at hcalls hasked
  rw [hend] at hasked
  obtain ⟨a, ret, hm, hne⟩ := hasked
  have hpos : 0 < cs.countP Callback.refuses :=
    List.countP_pos_iff.mpr ⟨_, hm, by simpa [Callback.refuses] using hne⟩
  simp only [Refused, Wait.world, hend, World.shut_calls, World.took_calls, Wait.answered_calls,
    hcalls, List.countP_append]
  omega

/-- The last wait of a transaction. -/
theorem concluded_close (bufSize : Nat) (rxBuf : Addr) {t : Transaction} {W : Wait} {abort : Abort}
    (hc : w.link.connected = true) (hW : await w.abortF w.calls abort w.link.ptd = W)
    (hptd : w.link.ptd = phyServer.stream ws)
    (hord : phyServer.Orderly (.busy (t.kind found)) ws) (hasks : asks ws = W.said)
    (hnf : found = true ∨
      ∀ r s, t.reception = some r → W.ending ≠ .got r.v.addressfound s) :
    Concluded bufSize t.doneS rxBuf (.busy (t.kind found)) w ws (dropAbort (t.close W w)) := by
  have hwaited : Waited (t.kind found) W [] ws := by
    rw [hptd] at hW
    subst hW
    exact await_words hord (by rw [hasks, List.append_nil])
  cases hwaited with
  | got m q ws' ha hm hend hq hms =>
    obtain rfl := hq.asks_of_not_owes (not_owes_of_answers ha) hms
    have hnf' : ∀ r, t.reception = some r → m.header ≠ r.v.addressfound := by
      intro r hr
      rcases hnf with rfl | hnf
      · exact header_ne_addressfound ha r.v
      · exact fun he => hnf r _ hr (he ▸ hend)
    have hcalls := (fine_wait hW hend).calls
    have hfinish := concluded_finish (w := W.answered w) bufSize rxBuf hc ha hm hnf'
    rw [Wait.world_got hend] at hcalls
    have hclose : dropAbort (t.close W w) = ((finish t.endMsg t.sizeofDone m.header
        (m.done ++ m.packet ++ phyServer.stream [])).ret t.endRet m.header,
        (finish t.endMsg t.sizeofDone m.header (m.done ++ m.packet ++ phyServer.stream [])).world
          t.sizeofDone t.doneS ((W.answered w).took (sizeof PcHeader)
            (m.done ++ m.packet ++ phyServer.stream []))) := by
      simp only [dropAbort, Transaction.close, hend, Wait.world_got hend]
      cases finish t.endMsg t.sizeofDone m.header (m.done ++ m.packet ++ phyServer.stream []) <;>
        rfl
    rw [hclose]
    refine .after (exchanged_answered hc W) hc hcalls (by simp) ?_
    rwa [after_reevalWords]
  | refused ws' hend hq hms =>
    obtain rfl := hq.asks_of_not_owes rfl hms
    have hclose : dropAbort (t.close W w) = (.error (.invalidResp (-1)), W.world w) := by
      rw [close_not_got (by simp [hend])]
      rfl
    have hworld : W.world w = ((W.answered w).took (sizeof PcHeader) (phyServer.stream [])).shut
        [.msg msgDisconnect []] := by
      simp only [Wait.world, hend]
    rw [hclose]
    refine ⟨⟨?_, ?_⟩, ?_, ?_, ?_, ?_, fun _ => by rw [hworld]; rfl⟩
    · rw [hworld]
      simp [events_reevalWords, wordEvents, PhyMsg.reads, PhyMsg.sizeofDone, PhyMsg.tooBig,
        PhyMsg.packet, packetReads, DevMsg.writes, DevMsg.events, DevMsg.header, DevMsg.body,
        DevMsg.tail, payloadEvents]
    · rw [hworld]
      simp [answers_reevalWords, stored_reevals]
      rfl
    · simp [concludes]
    · exact iff_of_true (refused_wait hW hend) (by simp)
    · rw [hworld]
      intro h
      simp at h
    · intro _
      rw [Server.after_append, after_reevalWords]
      rfl

-- ---------------------------------------------------------------------------
-- An address found
-- ---------------------------------------------------------------------------

theorem found_answer_rest (v : RxVersion) (bufSize : Nat) (done : v.Done)
    (packet : List.Vector Byte (v.packetSize (bytes done))) (rest : List Byte) :
    v.found bufSize (bytes done ++ packet.val ++ rest) =
      if 0 < bufSize ∧ bufSize < v.packetSize (bytes done) then
        .tooBig (bytes done) (packet.val ++ rest)
      else .whole (bytes done) packet.val rest := by
  have h := found_answer v bufSize done packet
  split at h
  next hbig =>
    rw [if_pos hbig, found_ahead (by rw [h]; rfl), h]
    rfl
  next hfit =>
    rw [if_neg hfit, found_ahead (by rw [h]; rfl), h]
    rfl

theorem kind_reception {t : Transaction} {r : Reception} (hr : t.reception = some r)
    (found : Bool) : t.kind found = .rx r.v found := by
  cases t <;> simp only [Transaction.reception, Option.some.injEq, reduceCtorEq] at hr <;>
    subst hr <;> rfl

@[simp] theorem judged_store (r : Reception) (doneS : Addr) :
    (r.judged doneS w).store = w.store := by
  unfold Reception.judged
  cases r.devRxevalF <;> rfl

/-- A packet that fits is where it belongs. -/
theorem exchanged_whole (hc : w.link.connected = true) (v : RxVersion) (doneS rxBuf : Addr)
    (done : v.Done) (packet : List.Vector Byte (v.packetSize (bytes done))) (rest s : List Byte)
    (hfit : PhyMsg.tooBig bufSize (.addressfound v done packet) = false) :
    let w' := (Found.whole (bytes done) packet.val rest).world v doneS rxBuf bufSize
      (w.took (sizeof PcHeader) s)
    Exchanged bufSize doneS rxBuf w [.answer (.addressfound v done packet)] w' ∧
      w'.link.connected = true ∧ w'.link.ptd = rest := by
  refine ⟨⟨?_, ?_⟩, ?_, picked_ptd _ _ rfl⟩
  · simp [Found.world, picked_log, wordEvents, PhyMsg.reads, PhyMsg.sizeofDone, hfit,
      PhyMsg.packet, hc]
  · simp only [answers_answer, answers_nil, List.foldl_cons, List.foldl_nil, PhyMsg.stored, hfit,
      Found.world, picked_store]
    rfl
  · simpa [Found.world] using hc

theorem writes_verdictMsg (a : Int32) : (verdictMsg a).writes = [.raw (bytes (verdict a))] := by
  unfold verdictMsg verdict
  split <;> rfl

theorem exchanged_verdict (hc : w.link.connected = true) (r : Reception) (a : Int32) :
    Exchanged bufSize doneS rxBuf w [.ask (verdictMsg a)]
      ((r.judged doneS w).sent [.raw (bytes (verdict a))]) where
  log := by simp [wordEvents, writes_verdictMsg, hc]
  store := by simp

theorem judged_counts (r : Reception) (doneS : Addr) :
    (r.judged doneS w).calls.countP Callback.refuses = w.calls.countP Callback.refuses :=
  (fine_judged r doneS).calls

theorem concluded_accepted {t : Transaction} {r : Reception} (hr : t.reception = some r)
    (hc : w₁.link.connected = true) (hptd : w₁.link.ptd = phyServer.stream ws)
    (hcalls : w₁.calls.countP Callback.refuses = w.calls.countP Callback.refuses)
    (hex : Exchanged r.bufSize t.doneS r.rxBuf w [.answer m] w₁)
    (hafter : phyServer.after p [.answer m] = .verdict r.v)
    (hw₂ : (r.judged t.doneS w₁).sent [.raw (bytes (verdict 1))] = w₂)
    (hord : phyServer.Orderly (.busy (.rx r.v true)) ws)
    (hasks : asks ws = (await w₂.abortF w₂.calls abort w₂.link.ptd).said) :
    Concluded r.bufSize t.doneS r.rxBuf p w (.answer m :: .ask .rxcont :: ws)
      (dropAbort (t.close (await w₂.abortF w₂.calls abort w₂.link.ptd) w₂)) := by
  have hv : Exchanged r.bufSize t.doneS r.rxBuf w₁ [.ask .rxcont] w₂ :=
    hw₂ ▸ exchanged_verdict hc r 1
  have hex₂ : Exchanged r.bufSize t.doneS r.rxBuf w [.answer m, .ask .rxcont] w₂ :=
    hex.trans hc hv
  have hcalls₂ : w₂.calls.countP Callback.refuses = w.calls.countP Callback.refuses := by
    rw [← hw₂]
    exact (judged_counts r t.doneS).trans hcalls
  have hc₂ : w₂.link.connected = true := by simpa [← hw₂] using hc
  have hptd₂ : w₂.link.ptd = phyServer.stream ws := by simpa [← hw₂] using hptd
  have hafter₂ : phyServer.after p [.answer m, .ask .rxcont] = .busy (t.kind true) := by
    rw [kind_reception hr]
    exact congrArg (Phy.recv · .rxcont) hafter
  rw [← kind_reception hr true] at hord
  have hclose := concluded_close r.bufSize r.rxBuf hc₂ rfl hptd₂ hord hasks (.inl rfl)
  exact .after hex₂ hc₂ hcalls₂ (hord.answers_ne_nil rfl) (by rw [hafter₂]; exact hclose)

theorem concluded_rejected {doneS : Addr} (r : Reception) (hc : w₁.link.connected = true)
    (hptd : w₁.link.ptd = [])
    (hcalls : w₁.calls.countP Callback.refuses = w.calls.countP Callback.refuses)
    (hex : Exchanged r.bufSize doneS r.rxBuf w [.answer m] w₁)
    (hret : concludes r.bufSize [m] = .ok r.v.addressfound.toInt32) (hne : m ≠ .abortreeval)
    (hafter : phyServer.after p [.answer m] = .verdict r.v)
    (hw₂ : (r.judged doneS w₁).sent [.raw (bytes (verdict a))] = w₂)
    (ha : verdictMsg a = .rxstop) :
    Concluded r.bufSize doneS r.rxBuf p w [.answer m, .ask .rxstop]
      (.ok r.v.addressfound.toInt32, w₂) := by
  have hv : Exchanged r.bufSize doneS r.rxBuf w₁ [.ask (verdictMsg a)] w₂ :=
    hw₂ ▸ exchanged_verdict hc r a
  rw [ha] at hv
  have hcalls₂ : w₂.calls.countP Callback.refuses = w.calls.countP Callback.refuses := by
    rw [← hw₂]
    exact (judged_counts r doneS).trans hcalls
  have hno : ¬ Refused w w₂ := by simp [Refused, hcalls₂]
  refine ⟨hex.trans hc hv, hret.symm, ?_, fun _ => ⟨?_, ?_⟩, fun h => ?_, fun h => absurd h hno⟩
  · exact iff_of_false hno (by simpa using hne)
  · simpa [← hw₂] using hptd
  · exact congrArg (Phy.recv · .rxstop) hafter
  · simp [← hw₂, hc] at h

/-- From an address on, that was found in the world `w`. -/
theorem concluded_afterFound {t : Transaction} {r : Reception} (hr : t.reception = some r)
    (hc : w.link.connected = true) (abort : Abort) (done : r.v.Done)
    (packet : List.Vector Byte (r.v.packetSize (bytes done)))
    (hord : phyServer.Orderly (.verdict r.v) ws)
    (hasks : asks ws = t.saidAfterFound r abort
      (w.took (sizeof PcHeader) (bytes done ++ packet.val ++ phyServer.stream ws))) :
    Concluded r.bufSize t.doneS r.rxBuf (.busy (t.kind false)) w
      (.answer (.addressfound r.v done packet) :: ws)
      (dropAbort (t.afterFound r abort
        (w.took (sizeof PcHeader) (bytes done ++ packet.val ++ phyServer.stream ws)))) := by
  have hafter : phyServer.after (.busy (t.kind false)) [.answer (.addressfound r.v done packet)] =
      .verdict r.v := by
    rw [kind_reception hr]
    exact after_answer (.addressfound r.v done packet)
  have hfound := found_answer_rest r.v r.bufSize done packet (phyServer.stream ws)
  simp only [Transaction.saidAfterFound, World.took_link_ptd, hfound] at hasks
  simp only [Transaction.afterFound, World.took_link_ptd, hfound]
  split at hasks
  next hbig =>
    have htoo : PhyMsg.tooBig r.bufSize (.addressfound r.v done packet) = true := by
      simpa [PhyMsg.tooBig] using hbig
    obtain ⟨ws', rfl, hoff, hnone⟩ := hord.ask_first rfl hasks
    obtain rfl := hoff.asks_of_not_owes rfl hnone
    simp only [if_pos hbig, Found.complete, Bool.false_eq_true, if_false, dropAbort]
    refine ⟨⟨?_, ?_⟩, ?_, ?_, fun h => ?_, fun _ => ?_, fun _ => rfl⟩
    · simp [Found.world, wordEvents, PhyMsg.reads, PhyMsg.sizeofDone, htoo, DevMsg.writes,
        DevMsg.events, DevMsg.header, DevMsg.body, DevMsg.tail, payloadEvents]
    · simp [Found.world, PhyMsg.stored, htoo]
      rfl
    · simp [concludes, PhyMsg.cbRet, PhyMsg.ret, htoo, Except.map]
    · exact iff_of_false (not_refused rfl) (by simp)
    · simp [Found.world] at h
    · rw [show (Word.answer (PhyMsg.addressfound r.v done packet) :: [.ask .disconnect] : Words) =
        [.answer (.addressfound r.v done packet)] ++ [.ask .disconnect] from rfl,
        Server.after_append, hafter]
      rfl
  next hfit =>
    have hfit' : PhyMsg.tooBig r.bufSize (.addressfound r.v done packet) = false := by
      simpa [PhyMsg.tooBig] using hfit
    have hret : concludes r.bufSize [.addressfound r.v done packet] =
        .ok r.v.addressfound.toInt32 := by
      simp [concludes, PhyMsg.cbRet, PhyMsg.ret, hfit', PhyMsg.header]
    obtain ⟨hex, hc₁, hptd₁⟩ := exchanged_whole hc r.v t.doneS r.rxBuf done packet
      (phyServer.stream ws) (bytes done ++ packet.val ++ phyServer.stream ws) hfit'
    have hcalls₁ := found_calls (w := w.took (sizeof PcHeader)
      (bytes done ++ packet.val ++ phyServer.stream ws)) (.whole (bytes done) packet.val
        (phyServer.stream ws)) r.v t.doneS r.rxBuf r.bufSize
    simp only [if_neg hfit, Found.complete, if_true] at hasks ⊢
    generalize (Found.whole (bytes done) packet.val (phyServer.stream ws)).world r.v t.doneS
      r.rxBuf r.bufSize (w.took (sizeof PcHeader)
        (bytes done ++ packet.val ++ phyServer.stream ws)) = w₁ at hasks hex hc₁ hptd₁ hcalls₁ ⊢
    replace hcalls₁ : w₁.calls.countP Callback.refuses = w.calls.countP Callback.refuses := by
      rw [hcalls₁]
      rfl
    obtain ⟨ws', rfl, hord', hasks'⟩ := hord.ask_first rfl hasks
    by_cases ha : r.accepts t.doneS w₁ = 1
    · simp only [ha, if_true] at hord' hasks' ⊢
      exact concluded_accepted hr hc₁ hptd₁ hcalls₁ hex hafter rfl hord' hasks'
    · have hstop : verdictMsg (r.accepts t.doneS w₁) = .rxstop := if_neg ha
      simp only [ha, if_false] at hasks' ⊢
      rw [hstop] at hord' ⊢
      obtain rfl := hord'.asks_of_not_owes rfl hasks'
      exact concluded_rejected r hc₁ hptd₁ hcalls₁ hex hret (by simp) hafter rfl hstop

-- ---------------------------------------------------------------------------
-- Whole calls
-- ---------------------------------------------------------------------------

theorem answer_of_address {v : RxVersion} (ha : (Phy.busy (.rx v false)).Answers m q)
    (hm : m.header = v.addressfound) :
    ∃ done packet, m = .addressfound v done packet ∧ q = .verdict v := by
  cases ha with
  | abortreeval => exact absurd hm.symm (addressfound_ne_abortreeval v)
  | addressfound v done packet => exact ⟨done, packet, rfl, rfl⟩
  | rxEnd => exact absurd hm (rxEnd_ne_addressfound v v)
  | disconnect => exact absurd hm.symm (addressfound_ne_disconnect v)

theorem exchanged_message (bufSize : Nat) (doneS rxBuf : Addr) (hc : w.link.connected = true)
    (t : Transaction) : Exchanged bufSize doneS rxBuf w [.ask (t.message w.mem)]
      (w.sent (t.message w.mem).events) where
  log := by
    have hw : (t.message w.mem).writes = (t.message w.mem).events := by cases t <;> rfl
    simp [wordEvents, hw, hc]
  store := rfl

theorem recv_message (t : Transaction) (mem : Mem) :
    Phy.idle.recv (t.message mem) = .busy (t.kind false) := by
  cases t <;> rfl

theorem concluded_proceed (t : Transaction) (hc : w.link.connected = true)
    (hptd : w.link.ptd = phyServer.stream ws) (hord : phyServer.Orderly .idle ws)
    (hasks : asks ws = t.said w) :
    Concluded t.bufSize t.doneS t.rxBuf .idle w ws (dropAbort (t.proceed w)) := by
  obtain ⟨ws₁, rfl, hord₁, hasks₁⟩ := hord.ask_first rfl hasks
  replace hord₁ : phyServer.Orderly (.busy (t.kind false)) ws₁ := recv_message t w.mem ▸ hord₁
  have hafter : phyServer.after .idle [.ask (t.message w.mem)] = .busy (t.kind false) :=
    recv_message t w.mem
  have hex := exchanged_message t.bufSize t.doneS t.rxBuf hc t
  generalize hw₀ : w.sent (t.message w.mem).events = w₀ at hex hasks₁
  have hc₀ : w₀.link.connected = true := hw₀ ▸ hc
  have hptd₀ : w₀.link.ptd = phyServer.stream ws₁ := hw₀ ▸ hptd
  have hcalls₀ : w₀.calls = w.calls := hw₀ ▸ rfl
  refine Concluded.after hex hc₀ (by rw [hcalls₀]) (hord₁.answers_ne_nil rfl) ?_
  rw [hafter]
  generalize hW : await w₀.abortF w₀.calls t.abort w₀.link.ptd = W at hasks₁
  by_cases hf : ∃ r s, t.reception = some r ∧ W.ending = .got r.v.addressfound s
  · obtain ⟨r, s, hr, hend⟩ := hf
    simp only [hr, hend, if_true] at hasks₁
    have hwaited : Waited (t.kind false) W (t.saidAfterFound r W.abort (W.world w₀)) ws₁ := by
      rw [hptd₀] at hW
      subst hW
      exact await_words hord₁ hasks₁
    have hbuf : t.bufSize = r.bufSize := by simp [Transaction.bufSize, hr]
    have hrx : t.rxBuf = r.rxBuf := by simp [Transaction.rxBuf, hr]
    rw [proceed_found hr hw₀ hW hend, hbuf, hrx]
    generalize hms : t.saidAfterFound r W.abort (W.world w₀) = ms at hwaited
    cases hwaited with
    | got m q ws' ha hm hgot hq hasks' =>
      obtain ⟨hh, hs⟩ := Ending.got.inj (hend.symm.trans hgot)
      rw [kind_reception hr] at ha
      obtain ⟨done, packet, rfl, rfl⟩ := answer_of_address ha hh.symm
      have hworld : W.world w₀ = (W.answered w₀).took (sizeof PcHeader)
          (bytes done ++ packet.val ++ phyServer.stream ws') := Wait.world_got hgot
      have hcalls := (fine_wait hW hend).calls
      rw [hworld] at hcalls hms ⊢
      refine Concluded.after (exchanged_answered hc₀ W) hc₀ hcalls (by simp) ?_
      rw [after_reevalWords]
      exact concluded_afterFound hr (w := W.answered w₀) hc₀ W.abort done packet hq
        (hasks'.trans hms.symm)
    | refused ws' href =>
      rw [hend] at href
      cases href
  · have hnf : ∀ h s r, W.ending = .got h s → t.reception = some r → h ≠ r.v.addressfound :=
      fun h s r hend hr hh => hf ⟨r, s, hr, hh ▸ hend⟩
    rw [proceed_close hw₀ hW hnf]
    refine concluded_close _ _ hc₀ hW hptd₀ hord₁ ?_ (.inr fun r s hr hend => hf ⟨r, s, hr, hend⟩)
    rw [hasks₁]
    split
    next r h s hr hend => rw [if_neg (hnf h s r hend hr), List.append_nil]
    next => rw [List.append_nil]

theorem concluded_answered (rxBuf : Addr) {l : Listener} (hc : w.link.connected = true)
    (hp : p = .rssi ∧ l = .rssi doneS ∨ p = .waiting ∧ l = .wait) (ha : p.Answers m q) (b : Nat) :
    Concluded 0 doneS rxBuf p w [.answer m] ((m.heard b).outcome l w) := by
  have hafter := after_answer ha
  have hleft : ∀ p l, phyServer.after p [.answer .disconnect] = .off → Listener.clear l = id →
      Concluded 0 doneS rxBuf p w [.answer .disconnect] (Heard.outcome (.disconnect []) l w) := by
    intro p l hafter hl
    refine ⟨⟨?_, ?_⟩, rfl, ?_, fun h => by simp [Heard.outcome, Heard.world] at h,
      fun _ => hafter, fun _ => rfl⟩
    · simp [Heard.outcome, Heard.world, hl, wordEvents, PhyMsg.reads, PhyMsg.sizeofDone,
        PhyMsg.tooBig, PhyMsg.packet, packetReads]
    · simp [Heard.outcome, Heard.world, hl, PhyMsg.stored, PhyMsg.done, PhyMsg.packet,
        Regions.Store.write_nil]
    · exact iff_of_false (not_refused (by simp [Heard.outcome, Heard.world, hl])) (by simp)
  rcases hp with ⟨rfl, rfl⟩ | ⟨rfl, rfl⟩
  · cases ha with
    | rssiEnd done =>
      refine ⟨⟨?_, ?_⟩, rfl, iff_of_false (not_refused rfl) (by simp), fun _ => ⟨rfl, hafter⟩,
        fun h => by simp [Heard.outcome, Heard.world, World.tookDone, Listener.clear,
          PhyMsg.heard, hc] at h, fun h => absurd h (not_refused rfl)⟩
      · simp [Heard.outcome, Heard.world, World.tookDone, Listener.clear, PhyMsg.heard,
          wordEvents, PhyMsg.reads, PhyMsg.sizeofDone, PhyMsg.tooBig, PhyMsg.packet, packetReads,
          Listener.sizeofDone, hc]
      · simp [Heard.outcome, Heard.world, World.tookDone, Listener.clear, PhyMsg.heard,
          PhyMsg.stored, PhyMsg.packet, PhyMsg.tooBig, Listener.doneS]
    | disconnect => exact hleft _ _ hafter rfl
  · cases ha with
    | waitEnd =>
      refine ⟨⟨?_, ?_⟩, rfl, iff_of_false (not_refused rfl) (by simp), fun _ => ⟨rfl, hafter⟩,
        fun h => by simp [Heard.outcome, Heard.world, World.tookDone, Listener.clear,
          PhyMsg.heard, hc] at h, fun h => absurd h (not_refused rfl)⟩
      · simp [Heard.outcome, Heard.world, World.tookDone, Listener.clear, PhyMsg.heard,
          wordEvents, PhyMsg.reads, PhyMsg.sizeofDone, PhyMsg.tooBig, PhyMsg.packet, packetReads,
          hc]
      · simp [Heard.outcome, Heard.world, World.tookDone, Listener.clear, PhyMsg.heard,
          PhyMsg.stored, PhyMsg.done, PhyMsg.packet, Regions.Store.write_nil]
    | disconnect => exact hleft _ _ hafter rfl

theorem concluded_heard {l : Listener} {d : DevMsg} (hc : w.link.connected = true)
    (hptd : w.link.ptd = phyServer.stream ws) (hd : d.writes = d.events)
    (hp : Phy.idle.recv d = .rssi ∧ l = .rssi doneS ∨ Phy.idle.recv d = .waiting ∧ l = .wait)
    (hord : phyServer.Orderly .idle ws) (hasks : asks ws = [d]) :
    Concluded 0 doneS rxBuf .idle w ws
      ((l.hear w.nc w.link.ptd).outcome l (w.sent d.events)) := by
  obtain ⟨ws₁, rfl, hord₁, hnone⟩ := hord.ask_first rfl hasks
  have howes : phyServer.owes (phyServer.recv .idle d) = true := by
    rcases hp with ⟨hp, -⟩ | ⟨hp, -⟩ <;>
      exact (congrArg Phy.owes hp).trans rfl
  obtain ⟨m, q, ws₂, rfl, ha, hq⟩ := hord₁.answer_first howes
  have hans : (Phy.idle.recv d).Answers m q := answers_of_answer ha
  obtain rfl := hq.asks_of_not_owes (not_owes_of_answers hans) hnone
  have hex : Exchanged 0 doneS rxBuf w [.ask d] (w.sent d.events) :=
    ⟨by simp [wordEvents, hd, hc], rfl⟩
  refine Concluded.after hex hc rfl (by simp) ?_
  rw [show phyServer.after .idle [.ask d] = Phy.idle.recv d from rfl]
  have hended := fun b => concluded_answered (w := w.sent d.events) rxBuf hc hp hans b
  rw [hptd, Server.stream_ask, stream_answer_cons, Server.stream_nil, List.append_nil, hear_bytes]
  generalize Phy.idle.recv d = p at hp hans hended ⊢
  have hheed : l.heed w.nc m.header (m.done ++ m.packet) = m.heard w.nc.bufsize := by
    rcases hp with ⟨rfl, rfl⟩ | ⟨rfl, rfl⟩
    · exact heed_answer hans ⟨doneS, rfl⟩ (by cases hans <;> trivial)
    · exact heed_answer hans rfl (by cases hans <;> trivial)
  rw [hheed]
  exact hended _

/-- The conversation of a call with an idle phy tells all that the call leaves. -/
theorem concluded_exec {c : CbReq} (hb : c.blocks = true) (hc : w.link.connected = true)
    (hptd : w.link.ptd = phyServer.stream ws) (hord : phyServer.Orderly .idle ws)
    (hasks : asks ws = c.said w) :
    Concluded c.bufSize c.fills c.rxBuf .idle w ws (c.exec.run w) := by
  rw [run_cb_open hc]
  cases c with
  | transaction t => exact concluded_proceed t hc hptd hord (hasks.trans (if_pos hc))
  | rssi s d | rssiv2 s d =>
    exact concluded_heard hc hptd rfl (.inl ⟨rfl, rfl⟩) hord (hasks.trans (if_pos hc))
  | wait s =>
    exact concluded_heard hc hptd rfl (.inr ⟨rfl, rfl⟩) hord (hasks.trans (if_pos hc))
  | _ => cases hb

end

end PhyCom2G4
