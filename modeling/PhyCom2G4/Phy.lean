import PhyCom2G4.Responses

/-!
# The phy

`Phy` is the other end of the link as the protocol diagrams have it: what it
accepts from the device in each of its states (`Phy.recv`) and what it may
answer (`Phy.answer`). A listener that is tuned to the phy's state takes its
answer to the last byte (`heed_answer`) and has it in its store (`store_answer`).
-/

namespace PhyCom2G4

open Bytes Memory Program Program.Prog LibPhyCom

/-- A transaction whose abort may be re-evaluated. A reception has found its
address by now, or not. -/
inductive Kind
  | tx
  | cca
  | rx (v : RxVersion) (found : Bool)
  deriving DecidableEq

/-- What the phy owes the device, or awaits from it. -/
inductive Phy
  | idle
  /-- It owes an answer. -/
  | busy (k : Kind)
  /-- It awaits a new abort structure. -/
  | reeval (k : Kind)
  /-- It owes an immediate RSSI measurement. -/
  | immRssi (v : RxVersion) (found : Bool)
  /-- It awaits the verdict on a packet. -/
  | verdict (v : RxVersion)
  /-- It owes an RSSI measurement. -/
  | rssi
  /-- It owes the end of a wait. -/
  | waiting
  /-- One side has left. -/
  | off
  /-- It was told what it does not accept. -/
  | fault
  deriving DecidableEq

variable [LibPhyCom]

def Phy.recv : Phy → DevMsg → Phy
  | .fault, _ | .off, _ => .fault
  | _, .disconnect | _, .terminate => .off
  | .idle, .tx .. | .idle, .txv2 .. | .idle, .tx2v1 .. => .busy .tx
  | .idle, .ccaMeas _ | .idle, .ccav2Meas _ => .busy .cca
  | .idle, .rx _ => .busy (.rx .v1 false)
  | .idle, .rxv2 .. | .idle, .rx2v1 .. => .busy (.rx .v2 false)
  | .idle, .rssimeas _ | .idle, .rssiv2meas _ => .rssi
  | .idle, .wait _ => .waiting
  | .reeval k, .rerespAbortreeval _ => .busy k
  | .reeval (.rx v found), .rerespImmrssi _ => .immRssi v found
  | .verdict v, .rxcont => .busy (.rx v true)
  | .verdict .v2, .rxv2cont _ => .busy (.rx .v2 true)
  | .verdict _, .rxstop => .idle
  | _, _ => .fault

def Phy.owes : Phy → Bool
  | .busy _ | .immRssi .. | .rssi | .waiting => true
  | _ => false

def Phy.answer : Phy → PhyMsg → Option Phy
  | .busy k, .abortreeval => some (.reeval k)
  | .busy .tx, .txEnd _ => some .idle
  | .busy .cca, .ccaEnd _ => some .idle
  | .busy (.rx v false), .addressfound v' _ _ => if v' = v then some (.verdict v) else none
  | .busy (.rx v _), .rxEnd v' _ => if v' = v then some .idle else none
  | .immRssi v found, .immrssiRrsiDone _ => some (.reeval (.rx v found))
  | .rssi, .rssiEnd _ => some .idle
  | .waiting, .waitEnd => some .idle
  | p, .disconnect => if p.owes then some .off else none
  | _, _ => none

inductive Phy.Answers : Phy → PhyMsg → Phy → Prop
  | abortreeval (k : Kind) : Answers (.busy k) .abortreeval (.reeval k)
  | txEnd (done : TxDone) : Answers (.busy .tx) (.txEnd done) .idle
  | ccaEnd (done : CcaDone) : Answers (.busy .cca) (.ccaEnd done) .idle
  | addressfound (v : RxVersion) (done : v.Done)
    (packet : List.Vector Byte (v.packetSize (bytes done))) :
    Answers (.busy (.rx v false)) (.addressfound v done packet) (.verdict v)
  | rxEnd (v : RxVersion) (found : Bool) (done : v.Done) :
    Answers (.busy (.rx v found)) (.rxEnd v done) .idle
  | immrssiRrsiDone (v : RxVersion) (found : Bool) (done : RssiDone) :
    Answers (.immRssi v found) (.immrssiRrsiDone done) (.reeval (.rx v found))
  | rssiEnd (done : RssiDone) : Answers .rssi (.rssiEnd done) .idle
  | waitEnd : Answers .waiting .waitEnd .idle
  | disconnect (p : Phy) (ho : p.owes = true) : Answers p .disconnect .off

theorem answers_of_answer {p q : Phy} {m : PhyMsg} (h : p.answer m = some q) :
    p.Answers m q := by
  unfold Phy.answer at h
  split at h
  case h_4 =>
    split at h
    next hv =>
      subst hv
      obtain rfl := Option.some.inj h
      exact .addressfound _ _ _
    next => simp at h
  case h_5 =>
    split at h
    next hv =>
      subst hv
      obtain rfl := Option.some.inj h
      exact .rxEnd _ _ _
    next => simp at h
  case h_9 =>
    split at h
    next ho =>
      obtain rfl := Option.some.inj h
      exact .disconnect _ ho
    next => simp at h
  case h_10 => simp at h
  all_goals
    obtain rfl := Option.some.inj h
    constructor

-- ---------------------------------------------------------------------------
-- Taking an answer
-- ---------------------------------------------------------------------------

def Kind.listener : Kind → Listener
  | .tx => .tx
  | .cca => .cca
  | .rx v _ => .rx v

def Kind.reeval : Kind → OngoingTransaction
  | .tx => .txAbortReeval
  | .cca => .ccaAbortReeval
  | .rx .. => .rxAbortReeval

def PhyMsg.tooBig (bufSize : Nat) : PhyMsg → Bool
  | .addressfound v done _ => 0 < bufSize ∧ bufSize < v.packetSize (bytes done)
  | _ => false

def PhyMsg.closes (bufSize : Nat) : PhyMsg → Bool
  | .disconnect => true
  | m => m.tooBig bufSize

def PhyMsg.ret (bufSize : Nat) (m : PhyMsg) : Int32 :=
  match m with
  | .disconnect => -1
  | .immrssiRrsiDone _ | .rssiEnd _ | .waitEnd => 0
  | m => if m.tooBig bufSize then -1 else m.header.toInt32

/-- The store with an answer in it: the done structure at `doneS`, and a packet that
fits in the buffer of the device, or in a new block. -/
def PhyMsg.stored (bufSize : Nat) (doneS rxBuf : Addr) (m : PhyMsg) (s : Regions.Store) :
    Regions.Store :=
  filled doneS rxBuf bufSize m.done (if m.tooBig bufSize then [] else m.packet) s

def PhyMsg.heard (bufSize : Nat) (m : PhyMsg) : Heard :=
  match m with
  | .abortreeval => .reeval []
  | .disconnect => .disconnect []
  | .addressfound v _ _ =>
    .found v (if m.tooBig bufSize then .tooBig m.done m.packet else .whole m.done m.packet [])
  | m => .ended m.header m.done []

/-- A listener fit for what the phy owes, but perhaps not for its version. -/
def Phy.Tuned (l : Listener) (nc : DevStateNc) : Phy → Prop
  | .busy (.rx _ found) => (∃ v, l = .rx v) ∧ nc.weGotAddress = found
  | .busy k => l = k.listener
  | .immRssi .. | .rssi => ∃ d, l = .rssi d
  | .waiting => l = .wait
  | _ => False

/-- The messages of one version mean nothing to a listener of the other. -/
def PhyMsg.Understood (l : Listener) : PhyMsg → Prop
  | .addressfound v .. | .rxEnd v _ => l = .rx v
  | _ => True

section
variable {w : World} {p q : Phy} {m : PhyMsg} {l : Listener} {nc : DevStateNc}

theorem heed_disconnect (l : Listener) (nc : DevStateNc) (s : List Byte) :
    l.heed nc msgDisconnect s = .disconnect s := by
  have hfind : l.finds nc msgDisconnect = none := by
    cases l <;> simp [Listener.finds, Ne.symm (addressfound_ne_disconnect _)]
  simp [Listener.heed, Ne.symm abortreeval_ne_disconnect, hfind]

theorem heed_abortreeval (hl : l.reeval = some o) (s : List Byte) :
    l.heed nc msgAbortreeval s = .reeval s :=
  if_pos ⟨by rw [hl]; rfl, rfl⟩

theorem heed_ended {done : List Byte} (hre : h ≠ msgAbortreeval) (hfind : l.finds nc h = none)
    (hdis : h ≠ msgDisconnect) (hend : l.endsWith h = true) (hl : done.length = l.sizeofDone) :
    l.heed nc h done = .ended h done [] := by
  have hs : split l.sizeofDone (done ++ []) = some (done, []) := split_append hl
  rw [List.append_nil] at hs
  simp only [Listener.heed, hre, and_false, if_false, hfind, hdis, hend, if_true, hs]

theorem found_answer (v : RxVersion) (bufSize : Nat) (done : v.Done)
    (packet : List.Vector Byte (v.packetSize (bytes done))) :
    v.found bufSize (bytes done ++ packet.val) =
      if 0 < bufSize ∧ bufSize < v.packetSize (bytes done) then .tooBig (bytes done) packet.val
      else .whole (bytes done) packet.val [] := by
  have hd : split v.sizeofDone (bytes done ++ packet.val) = some (bytes done, packet.val) :=
    split_append (by rw [length_bytes, sizeof_done])
  have hp : split (v.packetSize (bytes done)) (packet.val ++ []) = some (packet.val, []) :=
    split_append packet.property
  rw [List.append_nil] at hp
  simp only [RxVersion.found, hd, hp]

/-- A listener that understands the answer hears it whole. -/
theorem heed_answer (ha : p.Answers m q) (ht : p.Tuned l nc) (hu : m.Understood l) :
    l.heed nc m.header (m.done ++ m.packet) = m.heard nc.bufsize := by
  cases ha with
  | abortreeval k =>
    cases k with
    | rx v found =>
      obtain ⟨⟨v', rfl⟩, -⟩ := ht
      exact heed_abortreeval rfl _
    | _ => exact heed_abortreeval (congrArg Listener.reeval ht) _
  | txEnd done =>
    obtain rfl : l = .tx := ht
    simp only [PhyMsg.packet, List.append_nil]
    exact heed_ended (by simp only [PhyMsg.header]; decide) rfl txEnd_ne_disconnect
      (by simp [Listener.endsWith, PhyMsg.header]) (length_bytes done)
  | ccaEnd done =>
    obtain rfl : l = .cca := ht
    simp only [PhyMsg.packet, List.append_nil]
    exact heed_ended (by simp only [PhyMsg.header]; decide) rfl ccaEnd_ne_disconnect
      (by simp [Listener.endsWith, PhyMsg.header]) (length_bytes done)
  | addressfound v done packet =>
    obtain rfl : l = .rx v := hu
    obtain ⟨-, hg⟩ := ht
    simp only [PhyMsg.header, PhyMsg.done, PhyMsg.packet, Listener.heed, Listener.finds,
      addressfound_ne_abortreeval, and_false, if_false, hg, and_true, if_true, PhyMsg.heard,
      found_answer, PhyMsg.tooBig, decide_eq_true_eq]
  | rxEnd v found done =>
    obtain rfl : l = .rx v := hu
    simp only [PhyMsg.packet, List.append_nil]
    exact heed_ended (rxEnd_ne_abortreeval v) (by simp [Listener.finds, PhyMsg.header])
      (rxEnd_ne_disconnect v) (by simp [Listener.endsWith, PhyMsg.header])
      ((length_bytes done).trans (sizeof_done v))
  | immrssiRrsiDone v found done =>
    obtain ⟨d, rfl⟩ := ht
    simp only [PhyMsg.packet, List.append_nil]
    exact heed_ended (by simp only [PhyMsg.header]; decide) rfl immrssiRrsiDone_ne_disconnect
      (by simp [Listener.endsWith, PhyMsg.header]) (length_bytes done)
  | rssiEnd done =>
    obtain ⟨d, rfl⟩ := ht
    simp only [PhyMsg.packet, List.append_nil]
    exact heed_ended (by simp only [PhyMsg.header]; decide) rfl rssiEnd_ne_disconnect
      (by simp [Listener.endsWith, PhyMsg.header]) (length_bytes done)
  | waitEnd =>
    obtain rfl : l = .wait := ht
    refine heed_ended (fun he => msgWaitEnd_new ?_) rfl waitEnd_ne_disconnect
      (by simp [Listener.endsWith, PhyMsg.header]) rfl
    have he' : msgWaitEnd = msgAbortreeval := he
    rw [he']
    exact List.mem_cons_of_mem _ (by decide)
  | disconnect p ho => exact heed_disconnect l nc _

theorem ret_answer (ha : p.Answers m q) (ht : p.Tuned l nc) (hu : m.Understood l) :
    (m.heard bufSize).ret l = .ok (m.ret bufSize) := by
  cases ha with
  | addressfound v done packet =>
    simp only [PhyMsg.heard, PhyMsg.ret, Heard.ret]
    cases PhyMsg.tooBig bufSize (.addressfound v done packet) <;> rfl
  | rxEnd v found done =>
    obtain rfl : l = .rx v := hu
    rfl
  | txEnd | ccaEnd =>
    obtain rfl := ht
    rfl
  | immrssiRrsiDone | rssiEnd =>
    obtain ⟨d, rfl⟩ := ht
    rfl
  | waitEnd =>
    obtain rfl : l = .wait := ht
    rfl
  | _ => rfl

theorem link_ended (l : Listener) (h : PcHeader) (done : List Byte) (hd : l = .wait → done = []) :
    (Heard.world l (.ended h done []) w).link.connected = w.link.connected ∧
      (Heard.world l (.ended h done []) w).link.ptd = [] ∧
      (Heard.world l (.ended h done []) w).store = w.store.write (l.doneS w.nc) done := by
  by_cases hl : l = .wait
  · subst hl
    rw [hd rfl]
    exact ⟨rfl, rfl, (Regions.Store.write_nil _ _).symm⟩
  · rw [Heard.world, tookDone_clear hl]
    exact ⟨by simp, by simp, by cases l <;> rfl⟩

/-- What is left of the link: closed by a DISCONNECT and by a packet too big,
else open with nothing more to read. -/
theorem link_answer (ha : p.Answers m q) (ht : p.Tuned l nc) (hc : w.link.connected = true) :
    let w' := (m.heard bufSize).world l w
    w'.link.connected = !m.closes bufSize ∧ (m.closes bufSize = false → w'.link.ptd = []) := by
  have hended : ∀ h done, (l = .wait → done = []) →
      (Heard.world l (.ended h done []) w).link.connected = true ∧
        (false = false → (Heard.world l (.ended h done []) w).link.ptd = []) := fun h done hd =>
    ⟨(link_ended l h done hd).1.trans hc, fun _ => (link_ended l h done hd).2.1⟩
  cases ha with
  | abortreeval k =>
    simp only [PhyMsg.heard, Heard.world]
    cases l.reeval <;> exact ⟨hc, fun _ => rfl⟩
  | addressfound v done packet =>
    simp only [PhyMsg.heard, Heard.world, judged_link, PhyMsg.closes]
    cases PhyMsg.tooBig bufSize (.addressfound v done packet) with
    | true => exact ⟨rfl, fun h => by simp at h⟩
    | false =>
      simp only [Bool.false_eq_true, if_false]
      exact ⟨(found_connected _ _ _ _ _).trans hc, fun _ => picked_ptd _ _ (by simp)⟩
  | disconnect p ho => exact ⟨rfl, fun h => by simp [PhyMsg.closes] at h⟩
  | txEnd | ccaEnd =>
    obtain rfl := ht
    exact hended _ _ (by simp [Kind.listener])
  | rxEnd =>
    obtain ⟨⟨v, rfl⟩, -⟩ := ht
    exact hended _ _ (by simp)
  | immrssiRrsiDone | rssiEnd =>
    obtain ⟨d, rfl⟩ := ht
    exact hended _ _ (by simp)
  | waitEnd => exact hended _ _ fun _ => rfl

theorem store_answer (ha : p.Answers m q) (ht : p.Tuned l w.nc) (hu : m.Understood l) :
    ((m.heard w.nc.bufsize).world l w).store =
      m.stored w.nc.bufsize (l.doneS w.nc) w.nc.rxbuf w.store := by
  have hended : ∀ m : PhyMsg, m.heard w.nc.bufsize = .ended m.header m.done [] → m.packet = [] →
      (l = .wait → m.done = []) → ((m.heard w.nc.bufsize).world l w).store =
        m.stored w.nc.bufsize (l.doneS w.nc) w.nc.rxbuf w.store := by
    intro m hm hp hd
    rw [hm, (link_ended l m.header m.done hd).2.2, PhyMsg.stored, hp, ite_self, filled_nil]
  cases ha with
  | abortreeval k =>
    simp only [PhyMsg.heard, Heard.world, PhyMsg.stored, PhyMsg.done, PhyMsg.packet, filled_nil,
      Regions.Store.write_nil, ite_self]
    cases l.reeval <;> rfl
  | addressfound v done packet =>
    obtain rfl : l = .rx v := hu
    simp only [PhyMsg.heard, Heard.world, PhyMsg.stored]
    cases PhyMsg.tooBig w.nc.bufsize (.addressfound v done packet) with
    | true =>
      simp only [if_true, filled_nil]
      cases v <;> rfl
    | false =>
      simp only [Bool.false_eq_true, if_false]
      cases v <;> exact picked_store _ _ _ _
  | disconnect p ho =>
    simp only [PhyMsg.stored, PhyMsg.done, PhyMsg.packet, ite_self, filled_nil,
      Regions.Store.write_nil]
    cases l <;> rfl
  | txEnd | ccaEnd =>
    obtain rfl := ht
    exact hended _ rfl rfl (by simp [Kind.listener])
  | rxEnd =>
    obtain ⟨⟨v, rfl⟩, -⟩ := ht
    exact hended _ rfl rfl (by simp)
  | immrssiRrsiDone | rssiEnd =>
    obtain ⟨d, rfl⟩ := ht
    exact hended _ rfl rfl (by simp)
  | waitEnd => exact hended _ rfl rfl fun _ => rfl

theorem heed_not_understood (ha : p.Answers m q) (ht : p.Tuned l nc) (hu : ¬ m.Understood l) :
    l.heed nc m.header (m.done ++ m.packet) = .invalid m.header (m.done ++ m.packet) := by
  cases ha with
  | addressfound v done packet =>
    obtain ⟨⟨v', rfl⟩, -⟩ := ht
    have hne : v.addressfound ≠ v'.addressfound ∧ v.addressfound ≠ v'.rxEnd := by
      cases v <;> cases v' <;> first | exact absurd rfl hu | decide
    simp [Listener.heed, Listener.finds, Listener.endsWith, PhyMsg.header, hne.1, hne.2]
  | rxEnd v found done =>
    obtain ⟨⟨v', rfl⟩, -⟩ := ht
    have hne : v.rxEnd ≠ v'.rxEnd := by
      cases v <;> cases v' <;> first | exact absurd rfl hu | decide
    simp [Listener.heed, Listener.finds, Listener.endsWith, PhyMsg.header, hne]
  | _ => exact absurd trivial hu

end

end PhyCom2G4
