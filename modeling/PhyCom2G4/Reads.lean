import PhyCom2G4.NcCalls

/-!
# Complete reads and short ones

What `hear` finds, put back together, is the stream it was given. From that
follows when a call of the family without callbacks can be believed: a
success stands for a message read in full, and a read that comes short for
-1, except that the end of a reception is reported even when its done
structure did not arrive.
-/

namespace PhyCom2G4

open Bytes Memory Program Program.Prog LibPhyCom

variable [LibPhyCom]

-- ---------------------------------------------------------------------------
-- The stream behind what is heard
-- ---------------------------------------------------------------------------

def Found.Of (v : RxVersion) (bufSize : Nat) (s : List Byte) : Found → Prop
  | .doneCut s' => s' = s ∧ s.length < v.sizeofDone
  | .tooBig done rest => s = done ++ rest ∧ done.length = v.sizeofDone ∧
      0 < bufSize ∧ bufSize < v.packetSize done
  | .packetCut done s' => s = done ++ s' ∧ done.length = v.sizeofDone ∧
      (bufSize = 0 ∨ v.packetSize done ≤ bufSize) ∧ s'.length < v.packetSize done
  | .whole done packet rest => s = done ++ (packet ++ rest) ∧ done.length = v.sizeofDone ∧
      (bufSize = 0 ∨ v.packetSize done ≤ bufSize) ∧ packet.length = v.packetSize done

theorem found_of (v : RxVersion) (bufSize : Nat) (s : List Byte) :
    (v.found bufSize s).Of v bufSize s := by
  unfold RxVersion.found
  cases hd : split v.sizeofDone s with
  | none => exact ⟨rfl, split_eq_none.mp hd⟩
  | some d =>
    obtain ⟨done, s'⟩ := d
    obtain ⟨rfl, hl⟩ := split_eq_some.mp hd
    dsimp only
    split
    next hbig => exact ⟨rfl, hl, hbig⟩
    next hfit =>
      cases hp : split (v.packetSize done) s' with
      | none => exact ⟨rfl, hl, by omega, split_eq_none.mp hp⟩
      | some p =>
        obtain ⟨packet, rest⟩ := p
        obtain ⟨rfl, hpl⟩ := split_eq_some.mp hp
        exact ⟨rfl, hl, by omega, hpl⟩

def Listener.takes (nc : DevStateNc) (h : PcHeader) (l : Listener) : Prop :=
  (l.reeval.isSome ∧ h = msgAbortreeval) ∨ (l.finds nc h).isSome ∨ h = msgDisconnect ∨
    l.endsWith h = true

def Heard.Of (l : Listener) (nc : DevStateNc) (s : List Byte) : Heard → Prop
  | .cut => s.length < sizeof PcHeader
  | .reeval rest => s = bytes msgAbortreeval ++ rest ∧ l.reeval.isSome
  | .found v f => l = .rx v ∧ nc.weGotAddress = false ∧
      ∃ s', s = bytes v.addressfound ++ s' ∧ f.Of v nc.bufsize s'
  | .disconnect rest => s = bytes msgDisconnect ++ rest
  | .endCut h s' => s = bytes h ++ s' ∧ l.endsWith h = true ∧ s'.length < l.sizeofDone
  | .ended h done rest => s = bytes h ++ (done ++ rest) ∧ l.endsWith h = true ∧
      done.length = l.sizeofDone
  | .invalid h rest => s = bytes h ++ rest ∧ ¬ l.takes nc h

omit [LibPhyCom] in
theorem finds_eq_some {l : Listener} (h : l.finds nc hd = some v) :
    l = .rx v ∧ hd = v.addressfound ∧ nc.weGotAddress = false := by
  cases l with
  | rx v' =>
    simp only [Listener.finds, Option.ite_none_right_eq_some, Option.some.injEq] at h
    obtain ⟨h, rfl⟩ := h
    exact ⟨rfl, h⟩
  | _ => simp [Listener.finds] at h

theorem hear_of (l : Listener) (nc : DevStateNc) (s : List Byte) : (l.hear nc s).Of l nc s := by
  unfold Listener.hear
  cases hs : split (sizeof PcHeader) s with
  | none => exact split_eq_none.mp hs
  | some r =>
    obtain ⟨hb, s'⟩ := r
    obtain ⟨h, rfl, rfl⟩ := split_sizeof hs
    simp only [parse_bytes, Listener.heed]
    split
    next hre => exact ⟨by rw [hre.2], hre.1⟩
    next hre =>
      cases hf : l.finds nc h with
      | some v =>
        obtain ⟨hl, rfl, hg⟩ := finds_eq_some hf
        exact ⟨hl, hg, s', rfl, found_of v nc.bufsize s'⟩
      | none =>
        dsimp only
        split
        next hdis => rw [hdis]; rfl
        next hdis =>
          split
          next hend =>
            cases hd : split l.sizeofDone s' with
            | none => exact ⟨rfl, hend, split_eq_none.mp hd⟩
            | some d =>
              obtain ⟨rfl, hl⟩ := split_eq_some.mp hd
              exact ⟨rfl, hend, hl⟩
          next hend => exact ⟨rfl, by simp [Listener.takes, hre, hf, hdis, hend]⟩

-- ---------------------------------------------------------------------------
-- Counting what is read
-- ---------------------------------------------------------------------------

/-- The bytes asked of the phy in the session, and those still to come. A full
read moves bytes from the second count to the first; a short one asks for
more than there is. -/
def PbDevState.claimed (l : PbDevState) : Nat := (l.log.map Event.asked).sum + l.ptd.length

/-- Some read between `w` and `w'` came short. -/
def CameShort (w w' : World) : Prop := w.link.claimed < w'.link.claimed

section
variable {w : World}

@[simp] theorem claimed_setOngoing (o : OngoingTransaction) :
    (w.setOngoing o).link.claimed = w.link.claimed := rfl

@[simp] theorem claimed_stored (p : Addr) (bs : List Byte) :
    (w.stored p bs).link.claimed = w.link.claimed := rfl

theorem claimed_took (h : w.link.ptd.length = n + rest.length) :
    (w.took n rest).link.claimed = w.link.claimed := by
  simp [PbDevState.claimed, Event.asked, h]
  omega

theorem claimed_sent (h : (es.map Event.asked).sum = 0) :
    (w.sent es).link.claimed = w.link.claimed := by
  simp [PbDevState.claimed, h]

def Heard.short : Heard → Bool
  | .cut | .endCut .. | .found _ (.doneCut _) | .found _ (.packetCut ..) => true
  | _ => false

theorem claimed_picked (rxBuf : Addr) (bufSize : Nat)
    (h : w.link.ptd.length = packet.length + rest.length) :
    (w.picked rxBuf bufSize packet rest).link.claimed = w.link.claimed := by
  unfold World.picked
  split
  · rfl
  · exact (claimed_took (by simpa using h)).trans (by rw [buffered_link])

theorem cameShort_iff {heard : Heard} {l : Listener} (hof : heard.Of l w.nc w.link.ptd) :
    CameShort w (heard.world l w) ↔ heard.short = true := by
  have h4 : sizeof PcHeader = 4 := rfl
  simp only [CameShort]
  cases heard with
  | cut =>
    have hlen : w.link.ptd.length < 4 := hof
    simp [PbDevState.claimed, Heard.world, Heard.short, Event.asked, h4]
    omega
  | reeval rest =>
    have hlen := congrArg List.length hof.1
    cases hl : l.reeval <;>
      simp [PbDevState.claimed, Heard.world, Heard.short, Event.asked, hl, hlen, h4] <;> omega
  | found v f =>
    obtain ⟨-, -, s, hs, hf⟩ := hof
    have hlen := congrArg List.length hs
    cases f with
    | doneCut s' =>
      obtain ⟨-, hd⟩ := hf
      simp [PbDevState.claimed, Heard.world, Found.world, Heard.short, Event.asked, hlen, h4]
      omega
    | tooBig done rest =>
      obtain ⟨rfl, hd, -⟩ := hf
      simp [PbDevState.claimed, Heard.world, Found.world, Heard.short, Event.asked, hlen, hd, h4]
      omega
    | packetCut done s' =>
      obtain ⟨rfl, hd, -, hp⟩ := hf
      simp [PbDevState.claimed, Heard.world, Found.world, Heard.short, Event.asked, hlen, hd, h4]
      omega
    | whole done packet rest =>
      obtain ⟨rfl, hd, -, hp⟩ := hf
      simp only [Heard.world, judged_link, Found.world, Heard.short, Bool.false_eq_true, iff_false]
      rw [claimed_picked _ _ (by simp)]
      simp [PbDevState.claimed, Event.asked, hlen, hd, h4]
      omega
  | disconnect rest =>
    have hlen := congrArg List.length (hof : w.link.ptd = _)
    simp [PbDevState.claimed, Heard.world, Heard.short, Event.asked, hlen, h4]
    omega
  | endCut h s =>
    obtain ⟨hs, -, hd⟩ := hof
    have hlen := congrArg List.length hs
    simp [PbDevState.claimed, Heard.world, Heard.short, Event.asked, hlen, h4]
    omega
  | ended h done rest =>
    obtain ⟨hs, -, hd⟩ := hof
    have hlen := congrArg List.length hs
    cases l <;> simp [Listener.sizeofDone] at hd <;>
      simp [PbDevState.claimed, Heard.world, World.tookDone, Listener.sizeofDone, Heard.short,
        Event.asked, hlen, hd, h4] <;> omega
  | invalid h rest =>
    have hlen := congrArg List.length hof.1
    cases l <;> simp [PbDevState.claimed, Heard.world, Heard.short, Event.asked, hlen, h4] <;> omega

-- ---------------------------------------------------------------------------
-- Successes
-- ---------------------------------------------------------------------------

def successHeaders : List PcHeader :=
  [msgTxEnd, msgCcaEnd, msgRxEnd, msgRxv2End, msgRxAddressfound, msgRxv2Addressfound]

/-- Does `ret` say that `m` was received? What was received is an answer of the kind and
version that the call waits for. -/
def NcReq.tells (c : NcReq) (ret : Int32) (m : PhyMsg) : Prop :=
  match c.listener, m with
  | some .tx, .txEnd _ | some .cca, .ccaEnd _ => ret = m.header.toInt32
  | some (.rx v), .addressfound v' _ _ | some (.rx v), .rxEnd v' _ =>
    v' = v ∧ ret = m.header.toInt32
  | some (.rssi _), .rssiEnd _ | some (.rssi _), .immrssiRrsiDone _ => ret = 0
  | _, _ => False

def NcReq.succeeds (c : NcReq) (ret : Int32) : Prop :=
  ret ∈ successHeaders.map UInt32.toInt32 ∨ (∃ doneS, c.listener = some (.rssi doneS)) ∧ ret = 0

/-- The message `m` was read in full, its done structure to where the pointer noted for it
points and its packet to the buffer noted for it: the device's own, where it fits, or a new
block if the device gave no size. -/
structure NcReq.Received (c : NcReq) (m : PhyMsg) (w w' : World) : Prop where
  stream : w.link.ptd = m.write ++ w'.link.ptd
  fits : (c.notes w.nc).bufsize = 0 ∨ m.packet.length ≤ (c.notes w.nc).bufsize
  stored : ∃ l, c.listener = some l ∧ w'.store =
    filled (l.doneS (c.notes w.nc)) (c.notes w.nc).rxbuf (c.notes w.nc).bufsize m.done m.packet
      w.store

/-- A success stands for a message received, a short read for -1. -/
structure NcReq.Believable (c : NcReq) (w : World) : Prop where
  success : ∀ ret, (c.exec.run w).1 = .ok ret → c.succeeds ret →
    ∃ m, c.tells ret m ∧ c.Received m w (c.exec.run w).2
  short : CameShort w (c.exec.run w).2 → (c.exec.run w).1 = .ok (-1)

theorem believable_def {c : NcReq} : c.Believable w ↔
    (∀ ret, (c.exec.run w).1 = .ok ret → c.succeeds ret →
      ∃ m, c.tells ret m ∧ c.Received m w (c.exec.run w).2) ∧
    (CameShort w (c.exec.run w).2 → (c.exec.run w).1 = .ok (-1)) :=
  ⟨fun h => ⟨h.success, h.short⟩, fun h => ⟨h.1, h.2⟩⟩

/-- The call is waiting for the end of a reception, and the phy's stream is cut
inside the done structure of that end. -/
def NcReq.endCutShort (c : NcReq) (w : World) : Prop :=
  w.link.connected = true ∧ c.passes w.nc = true ∧ ∃ v s, c.listener = some (.rx v) ∧
    w.link.ptd = bytes v.rxEnd ++ s ∧ s.length < v.sizeofDone

/-- A complete address is the phy's ADDRESSFOUND message. -/
theorem received_found {c : NcReq} (hl : c.listener = some (.rx v))
    (hs : w.link.ptd = bytes v.addressfound ++ s)
    (hf : (Found.whole done packet rest).Of v (c.notes w.nc).bufsize s) :
    ∃ m : PhyMsg, c.tells v.addressfound.toInt32 m ∧
      c.Received m w ((Heard.found v (.whole done packet rest)).world (.rx v) (c.spoken w)) := by
  obtain ⟨rfl, hd, hfits, hp⟩ := hf
  have hb : bytes (parse done : v.Done) = done := bytes_parse (by rw [hd, sizeof_done])
  refine ⟨.addressfound v (parse done) ⟨packet, by rw [hb, hp]⟩, ?_, ?_, hp ▸ hfits, .rx v, hl, ?_⟩
  · simp only [NcReq.tells, hl]
    exact ⟨trivial, rfl⟩
  · simp only [Heard.world, judged_link, Found.world]
    rw [picked_ptd _ _ rfl, hs]
    simp [PhyMsg.write, PhyMsg.header, PhyMsg.done, PhyMsg.packet, hb]
  · simp only [PhyMsg.done, PhyMsg.packet, hb]
    exact picked_store _ _ _ _

theorem exists_endMsg {c : NcReq} {l : Listener} (hl : c.listener = some l)
    (hend : l.endsWith h = true) (hd : done.length = l.sizeofDone)
    (hsucc : c.succeeds (l.endRet h)) :
    ∃ m : PhyMsg, c.tells (l.endRet h) m ∧ m.header = h ∧ m.done = done ∧ m.packet = [] := by
  simp only [NcReq.tells, hl]
  cases l with
  | tx =>
    obtain rfl : h = msgTxEnd := by simpa [Listener.endsWith] using hend
    exact ⟨.txEnd (parse done), rfl, rfl, bytes_parse hd, rfl⟩
  | cca =>
    obtain rfl : h = msgCcaEnd := by simpa [Listener.endsWith] using hend
    exact ⟨.ccaEnd (parse done), rfl, rfl, bytes_parse hd, rfl⟩
  | rx v =>
    obtain rfl : h = v.rxEnd := by simpa [Listener.endsWith] using hend
    exact ⟨.rxEnd v (parse done), ⟨rfl, rfl⟩, rfl,
      bytes_parse (by rw [hd, sizeof_done]; rfl), rfl⟩
  | rssi d =>
    obtain rfl | rfl : h = msgRssiEnd ∨ h = msgImmrssiRrsiDone := by
      simpa [Listener.endsWith] using hend
    · exact ⟨.rssiEnd (parse done), rfl, rfl, bytes_parse hd, rfl⟩
    · exact ⟨.immrssiRrsiDone (parse done), rfl, rfl, bytes_parse hd, rfl⟩
  | wait =>
    -- the end of a wait is no success: its return is none of the headers
    simp only [NcReq.succeeds, hl, successHeaders, Listener.endRet] at hsucc
    exact absurd hsucc (by simp; decide)

theorem received_ended {c : NcReq} {l : Listener} (hl : c.listener = some l) {m : PhyMsg}
    (hof : (Heard.ended m.header m.done rest).Of l (c.notes w.nc) w.link.ptd)
    (hp : m.packet = []) :
    c.Received m w ((Heard.ended m.header m.done rest).world l (c.spoken w)) := by
  obtain ⟨hs, -, hd⟩ := hof
  refine ⟨?_, .inr (by simp [hp]), l, hl, ?_⟩
  · rw [hs]
    cases l with
    | wait =>
      have hnil : m.done = [] := List.eq_nil_of_length_eq_zero hd
      simp [PhyMsg.write, hp, hnil, Heard.world, World.tookDone, Listener.clear]
    | _ => simp [PhyMsg.write, hp, Heard.world, World.tookDone]
  · rw [hp, filled_nil]
    cases l with
    | wait =>
      have hnil : m.done = [] := List.eq_nil_of_length_eq_zero hd
      rw [hnil, Regions.Store.write_nil]
      rfl
    | rx v => cases v <;> rfl
    | _ => rfl

/-- Of what a listener hears, only a complete end and a complete address are
successes, and they are whole messages. -/
theorem received_of_success {c : NcReq} {l : Listener} (hl : c.listener = some l) {heard : Heard}
    (hof : heard.Of l (c.notes w.nc) w.link.ptd) (hret : heard.ret l = .ok ret)
    (hsucc : c.succeeds ret) (hcut : ∀ v h s, l = .rx v → heard ≠ .endCut h s) :
    ∃ m, c.tells ret m ∧ c.Received m w (heard.world l (c.spoken w)) := by
  have hrssi : (∃ doneS, c.listener = some (.rssi doneS)) ↔ ∃ doneS, l = .rssi doneS := by
    simp [hl]
  simp only [NcReq.succeeds, hrssi] at hsucc
  have hbad : ret ≠ -1 := by
    rintro rfl
    revert hsucc
    simp [successHeaders]
    decide
  cases heard with
  | cut =>
    simp only [Heard.ret, Except.ok.injEq] at hret
    exact absurd hret.symm hbad
  | disconnect rest =>
    simp only [Heard.ret, Except.ok.injEq] at hret
    exact absurd hret.symm hbad
  | invalid h rest => simp [Heard.ret] at hret
  | reeval rest =>
    simp only [Heard.ret, Except.ok.injEq] at hret
    subst hret
    rcases hsucc with hmem | ⟨⟨doneS, rfl⟩, -⟩
    · exact absurd hmem (by decide)
    · simp [Heard.Of, Listener.reeval] at hof
  | found v f =>
    obtain ⟨rfl, -, s, hs, hf⟩ := hof
    cases f with
    | whole done packet rest =>
      simp only [Heard.ret, Found.ret, Except.ok.injEq] at hret
      subst hret
      exact received_found hl hs hf
    | _ =>
      simp only [Heard.ret, Found.ret, Except.ok.injEq] at hret
      exact absurd hret.symm hbad
  | endCut h s =>
    cases l with
    | rx v => exact absurd rfl (hcut v h s rfl)
    | _ =>
      simp only [Heard.ret, Listener.endCutRet, Except.ok.injEq] at hret
      exact absurd hret.symm hbad
  | ended h done rest =>
    simp only [Heard.ret, Except.ok.injEq] at hret
    subst hret
    obtain ⟨m, hm, rfl, rfl, hp⟩ :=
      exists_endMsg hl hof.2.1 hof.2.2 (by simpa only [NcReq.succeeds, hrssi] using hsucc)
    exact ⟨m, hm, received_ended hl hof hp⟩

theorem asked_events (m : DevMsg) : (m.events.map Event.asked).sum = 0 := by
  unfold DevMsg.events payloadEvents
  split <;> simp [Event.asked]

theorem asked_ncEvents (c : NcReq) (mem : Mem) : ((c.events mem).map Event.asked).sum = 0 := by
  cases c with
  | rxCont b => simp [NcReq.events, Event.asked]
  | rxv2Cont b abort => cases b <;> simp [NcReq.events, Event.asked]
  | _ => exact asked_events _

theorem claimed_spoken (c : NcReq) : (c.spoken w).link.claimed = w.link.claimed :=
  claimed_sent (asked_ncEvents c w.mem)

theorem spoken_cameShort_iff {c : NcReq} {l : Listener} {heard : Heard}
    (hof : heard.Of l (c.notes w.nc) w.link.ptd) :
    CameShort w (heard.world l (c.spoken w)) ↔ heard.short = true := by
  have h : CameShort (c.spoken w) (heard.world l (c.spoken w)) ↔ heard.short = true :=
    cameShort_iff hof
  rwa [CameShort, claimed_spoken] at h

theorem hear_endCut (nc : DevStateNc) (v : RxVersion) (hs : s.length < v.sizeofDone) :
    (Listener.rx v).hear nc (bytes v.rxEnd ++ s) = .endCut v.rxEnd s := by
  simp [Listener.hear, Listener.heed, Listener.finds, Listener.endsWith, Listener.sizeofDone,
    split_eq_none.mpr hs]

theorem NcReq.not_believable {c : NcReq} (h : c.endCutShort w) : ¬ c.Believable w := by
  obtain ⟨hc, hp, v, s, hl, hs, hlen⟩ := h
  intro hb
  have hshort := hb.short
  rw [run_exec_heard hc c hp hl, hs, hear_endCut _ v hlen] at hshort
  have hof : (Heard.endCut v.rxEnd s).Of (.rx v) (c.notes w.nc) w.link.ptd :=
    ⟨hs, by simp [Listener.endsWith], hlen⟩
  have hret := hshort ((spoken_cameShort_iff hof).mpr rfl)
  simp only [Heard.outcome, Heard.ret, Listener.endCutRet, Except.ok.injEq] at hret
  revert hret
  cases v <;> decide

theorem NcReq.believable {c : NcReq} (h : ¬ c.endCutShort w) : c.Believable w := by
  have hminus : ¬ c.succeeds (-1) := by
    simp [NcReq.succeeds, successHeaders]
    decide
  cases hc : w.link.connected with
  | false =>
    rw [believable_def, run_exec_closed hc c]
    refine ⟨fun ret hret hs => ?_, fun _ => rfl⟩
    obtain rfl : (-1 : Int32) = ret := Except.ok.inj hret
    exact absurd hs hminus
  | true =>
  cases hp : c.passes w.nc with
  | false =>
    rw [believable_def, run_exec_stopped hc c hp]
    exact ⟨fun ret hret => (by simp at hret), fun hs => absurd hs (Nat.lt_irrefl _)⟩
  | true =>
  cases hl : c.listener with
  | none =>
    rw [believable_def, run_exec_reject hc c hp hl]
    refine ⟨fun ret hret hs => ?_, fun hs => ?_⟩
    · obtain rfl : (0 : Int32) = ret := Except.ok.inj hret
      simp [NcReq.succeeds, hl, successHeaders] at hs
      exact absurd hs (by decide)
    · rw [CameShort, claimed_setOngoing, claimed_spoken] at hs
      exact absurd hs (Nat.lt_irrefl _)
  | some l =>
    rw [believable_def, run_exec_heard hc c hp hl]
    have hof := hear_of l (c.notes w.nc) w.link.ptd
    have hcut : ∀ v hd s, l = .rx v → l.hear (c.notes w.nc) w.link.ptd ≠ .endCut hd s := by
      rintro v hd s rfl he
      rw [he] at hof
      obtain rfl : hd = v.rxEnd := by simpa [Listener.endsWith] using hof.2.1
      exact h ⟨hc, hp, v, s, hl, hof.1, hof.2.2⟩
    refine ⟨fun ret hret hs => received_of_success hl hof hret hs hcut, fun hs => ?_⟩
    have hshort := (spoken_cameShort_iff hof).mp hs
    generalize l.hear (c.notes w.nc) w.link.ptd = heard at hcut hshort ⊢
    cases heard with
    | cut => rfl
    | endCut hd s =>
      cases l with
      | rx v => exact absurd rfl (hcut v hd s rfl)
      | _ => rfl
    | found v f => cases f <;> first | rfl | simp [Heard.short] at hshort
    | _ => simp [Heard.short] at hshort

/-- A call can be believed unless it reports the end of a reception whose done
structure it did not get. -/
theorem believable_iff (c : NcReq) (w : World) : c.Believable w ↔ ¬ c.endCutShort w :=
  ⟨fun hb h => NcReq.not_believable h hb, NcReq.believable⟩

end

end PhyCom2G4

-- ---------------------------------------------------------------------------
-- On a library that keeps the laws
-- ---------------------------------------------------------------------------

namespace PhyCom2G4

open Bytes Program Program.Prog

attribute [local instance] LibPhyCom.posix

/-- The phy's stream ends two bytes into the done structure of an RX_END. -/
theorem rxEnd_of_dead_link :
    let c := NcReq.rx (parse []) 0x100 0x200 0
    let w := World.start (bytes msgRxEnd ++ [1, 0])
    (c.exec.run w).1 = .ok msgRxEnd.toInt32 ∧ (c.exec.run w).2.link.connected = false ∧
      ¬ c.Believable w :=
  ⟨rfl, rfl, NcReq.not_believable ⟨rfl, rfl, .v1, [1, 0], rfl, rfl, by decide⟩⟩

end PhyCom2G4
