import PhyCom2G4.Failures
import PhyCom2G4.History

/-!
# Packets are received whole

An address found is followed by a done structure, which announces the size of
the packet, and by the packet. `Picks` says what becomes of them for a buffer
of a given size: the packet is where the request wants it, whole and nothing
past its end, or it was too big and the device has left without reading any
of it. In a blocking call this happens at most once by its form; without
callbacks at most one of all the calls of a reception comes to it, with the
buffer of the request (`packets_whole`).
-/

namespace PhyCom2G4

open Bytes Memory Wire Program Program.Prog LibPhyCom

variable [LibPhyCom]

-- ---------------------------------------------------------------------------
-- What becomes of a packet
-- ---------------------------------------------------------------------------

structure Untouched (doneS size : Nat) (w w' : World) : Prop where
  mem : Within doneS size w.mem w'.mem
  ptr : w'.ptr = w.ptr
  heap : w'.heap = w.heap

def ReadsNoPacket (v : RxVersion) (es : List Event) : Prop :=
  ∀ n, .read n ∈ es → n = sizeof PcHeader ∨ n = v.sizeofDone

def NoPacketRead (v : RxVersion) (w w' : World) : Prop :=
  ∃ es, w'.link.log = w.link.log ++ es ∧ ReadsNoPacket v es

/-- The packet is at `*rxBuf`, in the device's buffer if it has one and in a block of
its own size if not, and but for done structures nothing else is changed. -/
structure Delivered (v : RxVersion) (doneS rxBuf : Addr) (bufSize : Nat) (done packet : List Byte)
    (w w' : World) : Prop where
  size : packet.length = v.packetSize done
  mem : Within doneS v.sizeofDone (store w.mem (w'.ptr rxBuf) packet) w'.mem
  held : (∀ a, InRange (w'.ptr rxBuf) packet.length a → ¬ InRange doneS v.sizeofDone a) →
    load w'.mem (w'.ptr rxBuf) packet.length = packet
  kept : packet.length ≤ bufSize → w'.ptr = w.ptr ∧ w'.heap = w.heap
  fresh : bufSize < packet.length → bufSize = 0 ∧
    w'.heap = (w'.ptr rxBuf, packet.length) :: w.heap ∧ (∀ p, p ≠ rxBuf → w'.ptr p = w.ptr p) ∧
    ∀ b ∈ w.heap, ∀ a, InRange (w'.ptr rxBuf) packet.length a → ¬ InRange b.1 b.2 a
  once : ∃ es es', ReadsNoPacket v es ∧ ReadsNoPacket v es' ∧
    w'.link.log = w.link.log ++ (es ++ .read v.sizeofDone :: (packetReads packet ++ es'))

def DevMsg.isVerdict : DevMsg → Bool
  | .rxcont | .rxstop | .rxv2cont _ => true
  | _ => false

/-- The packet was too big: the device left without reading any of it, storing it or
having it judged. -/
structure LeftTooBig (v : RxVersion) (doneS : Addr) (rest : List Byte) (w : World)
    (r : Except Stop Int32 × World) : Prop where
  ret : r.1 = .ok (-1)
  untouched : Untouched doneS v.sizeofDone w r.2
  ptd : r.2.link.ptd = rest
  closed : r.2.link.connected = false
  wrote : ∃ ms, w.wrote r.2 = devCodec.writeAll (ms ++ [.disconnect]) ∧
    ∀ m ∈ ms, m.isVerdict = false ∧ m ≠ .disconnect
  calls : ∃ cs, r.2.calls = w.calls ++ cs ∧ ∀ c ∈ cs, ∃ a ret, c = .abortReeval a ret

def Picks (v : RxVersion) (doneS rxBuf : Addr) (bufSize : Nat) (s : List Byte) (w : World)
    (r : Except Stop Int32 × World) : Prop :=
  ∃ done rest, s = done ++ rest ∧ done.length = v.sizeofDone ∧
    if 0 < bufSize ∧ bufSize < v.packetSize done then LeftTooBig v doneS rest w r
    else ∃ packet rest', rest = packet ++ rest' ∧
      Delivered v doneS rxBuf bufSize done packet w r.2

/-- A blocking reception picks the packet of an address that its first wait came to. -/
structure Transaction.PicksOnce (t : Transaction) (r : Reception) (w : World) : Prop where
  told : ∀ s, (await w.abortF w.calls t.abort w.link.ptd).ending = .got r.v.addressfound s →
    Picks r.v t.doneS r.rxBuf r.bufSize s w ((CbReq.transaction t).exec.run w)
  untold : (∀ s, (await w.abortF w.calls t.abort w.link.ptd).ending ≠ .got r.v.addressfound s) →
    Untouched t.doneS t.sizeofDone w ((CbReq.transaction t).exec.run w).2

/-- Up to an address, the bytes `s` following: nothing is stored, and nothing but
re-evaluations asked about. -/
structure UpTo (v : RxVersion) (s : List Byte) (w w₀ : World) : Prop where
  mem : w₀.mem = w.mem
  ptr : w₀.ptr = w.ptr
  heap : w₀.heap = w.heap
  reads : NoPacketRead v w w₀
  ptd : w₀.link.ptd = s
  claimed : w₀.link.claimed = w.link.claimed
  calls : ∃ cs, w₀.calls = w.calls ++ cs ∧ ∀ c ∈ cs, ∃ a ret, c = .abortReeval a ret

section
variable {w w' : World} {v : RxVersion} {f : Found}

theorem Untouched.refl (doneS size : Nat) (w : World) : Untouched doneS size w w :=
  ⟨.refl _ _ _, rfl, rfl⟩

theorem Untouched.trans {w₁ w₂ w₃ : World} (h : Untouched doneS size w₁ w₂)
    (h' : Untouched doneS size w₂ w₃) : Untouched doneS size w₁ w₃ :=
  ⟨h.mem.trans h'.mem, h'.ptr.trans h.ptr, h'.heap.trans h.heap⟩

theorem found_not_short (hof : f.Of v bufSize w.link.ptd) (doneS rxBuf : Addr)
    (hs : ¬ CameShort w (f.world v doneS rxBuf bufSize w)) :
    (∃ done rest, f = .tooBig done rest) ∨ ∃ done packet rest, f = .whole done packet rest := by
  cases f with
  | doneCut s =>
    obtain ⟨rfl, hlen⟩ := hof
    refine absurd ?_ hs
    simp [CameShort, PbDevState.claimed, Found.world, Event.asked]
    omega
  | tooBig done rest => exact .inl ⟨done, rest, rfl⟩
  | packetCut done s =>
    obtain ⟨hptd, hdone, -, hlen⟩ := hof
    have hl := congrArg List.length hptd
    refine absurd ?_ hs
    simp [CameShort, PbDevState.claimed, Found.world, Event.asked, hl, hdone]
    omega
  | whole done packet rest => exact .inr ⟨done, packet, rest, rfl⟩

theorem picked_own (rxBuf : Addr) (bufSize : Nat) (packet rest : List Byte) :
    let w' := w.picked rxBuf bufSize packet rest
    (packet.length ≤ bufSize → w'.ptr = w.ptr ∧ w'.heap = w.heap) ∧
      (bufSize < packet.length → w'.heap = (w'.ptr rxBuf, packet.length) :: w.heap ∧
        (∀ p, p ≠ rxBuf → w'.ptr p = w.ptr p) ∧
        ∀ b ∈ w.heap, ∀ a, InRange (w'.ptr rxBuf) packet.length a → ¬ InRange b.1 b.2 a) := by
  intro w'
  constructor
  · intro hle
    simp only [w', World.picked, World.buffered, if_neg (Nat.not_lt.mpr hle)]
    split <;> exact ⟨rfl, rfl⟩
  · intro hlt
    have hne : packet ≠ [] := by
      rintro rfl
      simp at hlt
    have hptr : w'.ptr = fun q => if q = rxBuf then bsMalloc w.heap packet.length else w.ptr q := by
      simp only [w', World.picked, World.buffered, if_neg hne, if_pos hlt]
      rfl
    have hheap : w'.heap = (bsMalloc w.heap packet.length, packet.length) :: w.heap := by
      simp only [w', World.picked, World.buffered, if_neg hne, if_pos hlt]
      rfl
    have hdest : w'.ptr rxBuf = bsMalloc w.heap packet.length := by simp [hptr]
    refine ⟨by rw [hheap, hdest], fun p hp => by simp [hptr, hp], ?_⟩
    rw [hdest]
    exact fun b hb a ha => bsMalloc_fresh w.heap packet.length b hb a ha

theorem readsNoPacket_headers (h : ∀ n, Event.read n ∈ es → n = sizeof PcHeader) :
    ReadsNoPacket v es := fun n hn => .inl (h n hn)

theorem NoPacketRead.refl (v : RxVersion) (w : World) : NoPacketRead v w w :=
  ⟨[], (List.append_nil _).symm, nofun⟩

theorem NoPacketRead.trans {w₁ : World} (h : NoPacketRead v w w₁) (h' : NoPacketRead v w₁ w') :
    NoPacketRead v w w' := by
  obtain ⟨es, hlog, hes⟩ := h
  obtain ⟨es', hlog', hes'⟩ := h'
  refine ⟨es ++ es', by rw [hlog', hlog, List.append_assoc], fun n hn => ?_⟩
  rcases List.mem_append.mp hn with hn | hn
  · exact hes n hn
  · exact hes' n hn

theorem read_not_mem_events (m : DevMsg) (n : Nat) : .read n ∉ m.events := by
  unfold DevMsg.events payloadEvents
  split <;> simp

theorem delivered_whole {w₀ : World} (hup : UpTo v s w w₀)
    (hof : (Found.whole done packet rest).Of v bufSize s) (doneS rxBuf : Addr)
    (h : Untouched doneS v.sizeofDone
      ((Found.whole done packet rest).world v doneS rxBuf bufSize w₀) w')
    (hr : NoPacketRead v ((Found.whole done packet rest).world v doneS rxBuf bufSize w₀) w') :
    Delivered v doneS rxBuf bufSize done packet w w' := by
  obtain ⟨-, hdone, hfits, hsize⟩ := hof
  obtain ⟨es, hlog₀, hes⟩ := hup.reads
  obtain ⟨es', hlog, hes'⟩ := hr
  have hown := picked_own (w := (w₀.took v.sizeofDone (packet ++ rest)).stored doneS done) rxBuf
    bufSize packet rest
  have hmem₂ := picked_mem (w := (w₀.took v.sizeofDone (packet ++ rest)).stored doneS done) rxBuf
    bufSize packet rest
  have hlog₂ := picked_log (w := (w₀.took v.sizeofDone (packet ++ rest)).stored doneS done) rxBuf
    bufSize packet rest
  simp only [Found.world] at h hlog
  generalize World.picked rxBuf bufSize packet rest _ = w₂ at h hlog hown hmem₂ hlog₂
  simp only [World.stored_ptr, World.took_ptr, World.stored_heap, World.took_heap, hup.ptr,
    hup.heap]
    at hown
  have hmem : Within doneS v.sizeofDone (store w.mem (w'.ptr rxBuf) packet) w'.mem := by
    have hbelow : Within doneS v.sizeofDone w.mem (store w.mem doneS done) :=
      within_store w.mem doneS (Nat.le_of_eq hdone)
    refine Within.trans ?_ h.mem
    rw [hmem₂, h.ptr]
    simp only [World.stored_mem, World.took_mem, hup.mem]
    exact hbelow.store _ packet
  refine ⟨hsize, hmem, fun hapart => ?_, fun hle => ?_, fun hlt => ?_, es, es', hes, hes', ?_⟩
  · rw [hmem.load hapart]
    exact load_store _ _ _ rfl
  · rw [h.ptr, h.heap]
    exact hown.1 hle
  · rw [h.ptr, h.heap]
    exact ⟨by omega, hown.2 hlt⟩
  · rw [hlog, hlog₂]
    simp [hlog₀]

/-- An address, when the call goes on from it as far as its packet lets it. -/
theorem picks_found {w₀ : World} (ms : List DevMsg) {r : Except Stop Int32 × World}
    (hup : UpTo v s w w₀) (hof : f.Of v bufSize s) (hshort : ¬ CameShort w r.2)
    (hcut : f.complete = false → r = (.ok (-1), f.world v doneS rxBuf bufSize w₀))
    (hwrote : f.complete = false → w.wrote r.2 = devCodec.writeAll (ms ++ f.said))
    (hms : ∀ m ∈ ms, m.isVerdict = false ∧ m ≠ .disconnect)
    (hwhole : f.complete = true →
      Untouched doneS v.sizeofDone (f.world v doneS rxBuf bufSize w₀) r.2 ∧
        NoPacketRead v (f.world v doneS rxBuf bufSize w₀) r.2) :
    Picks v doneS rxBuf bufSize s w r := by
  have hof₀ : f.Of v bufSize w₀.link.ptd := by rwa [hup.ptd]
  have hfound : f.complete = false → ¬ CameShort w₀ (f.world v doneS rxBuf bufSize w₀) := by
    intro hf
    rw [hcut hf] at hshort
    simpa only [CameShort, hup.claimed] using hshort
  cases f with
  | doneCut s' =>
    obtain ⟨_, _, hf⟩ | ⟨_, _, _, hf⟩ := found_not_short hof₀ doneS rxBuf (hfound rfl) <;> cases hf
  | packetCut done s' =>
    obtain ⟨_, _, hf⟩ | ⟨_, _, _, hf⟩ := found_not_short hof₀ doneS rxBuf (hfound rfl) <;> cases hf
  | tooBig done rest =>
    obtain ⟨hs, hdone, hbig⟩ := hof
    refine ⟨done, rest, hs, hdone, ?_⟩
    rw [if_pos hbig]
    have hr := hcut rfl
    subst hr
    have hmem : Within doneS v.sizeofDone w.mem (store w₀.mem doneS done) := by
      rw [← hup.mem]
      exact within_store w₀.mem _ (Nat.le_of_eq hdone)
    exact ⟨rfl, ⟨hmem, hup.ptr, hup.heap⟩, rfl, rfl, ⟨ms, hwrote rfl, hms⟩, hup.calls⟩
  | whole done packet rest =>
    have hrest := hwhole rfl
    have hpacket := hof
    obtain ⟨hs, hdone, hfits, -⟩ := hof
    refine ⟨done, packet ++ rest, hs, hdone, ?_⟩
    rw [if_neg (by omega)]
    exact ⟨packet, rest, rfl, delivered_whole hup hpacket _ _ hrest.1 hrest.2⟩

-- ---------------------------------------------------------------------------
-- With callbacks
-- ---------------------------------------------------------------------------

theorem untouched_wait (doneS size : Nat) (W : Wait) : Untouched doneS size w (W.world w) := by
  unfold Wait.world
  cases W.ending <;> exact ⟨.refl _ _ _, rfl, rfl⟩

theorem readsNoPacket_answers (answers : List Abort)
    (h : ∀ n, Event.read n ∈ es → n = sizeof PcHeader) :
    ReadsNoPacket v (answerEvents answers ++ es) := by
  refine readsNoPacket_headers fun n hn => ?_
  rcases List.mem_append.mp hn with hn | hn
  · obtain ⟨a, -, hn⟩ := List.mem_flatMap.mp hn
    simpa using hn
  · exact h n hn

theorem noPacketRead_wait (v : RxVersion) (W : Wait) : NoPacketRead v w (W.world w) := by
  unfold Wait.world
  cases W.ending with
  | cut =>
    refine ⟨answerEvents W.answers ++ [.read (sizeof PcHeader), .closed], by simp, ?_⟩
    exact readsNoPacket_answers _ fun n hn => by simpa using hn
  | refused rest =>
    refine ⟨answerEvents W.answers ++ [.read (sizeof PcHeader), .msg msgDisconnect [], .closed],
      by simp, ?_⟩
    exact readsNoPacket_answers _ fun n hn => by simpa using hn
  | got h rest =>
    refine ⟨answerEvents W.answers ++ [.read (sizeof PcHeader)], by simp, ?_⟩
    exact readsNoPacket_answers _ fun n hn => by simpa using hn

theorem untouched_finish (endMsg : PcHeader) (size : Nat) (h : PcHeader) (s : List Byte)
    (doneS : Addr) : Untouched doneS size w ((finish endMsg size h s).world size doneS w) := by
  unfold finish
  split
  next =>
    cases hd : split size s with
    | none => exact ⟨within_store _ _ (length_leftover size s), rfl, rfl⟩
    | some r =>
      obtain ⟨-, hl⟩ := split_eq_some.mp hd
      exact ⟨within_store _ _ (Nat.le_of_eq hl), rfl, rfl⟩
  next =>
    split
    · exact ⟨.refl _ _ _, rfl, rfl⟩
    · exact .refl _ _ _

theorem noPacketRead_finish (v : RxVersion) (f : Finish) (doneS : Addr) :
    NoPacketRead v w (f.world v.sizeofDone doneS w) := by
  cases f with
  | ended done rest => exact ⟨[.read v.sizeofDone], rfl, fun n hn => .inr (by simpa using hn)⟩
  | endCut s =>
    refine ⟨[.read v.sizeofDone, .closed], by simp [Finish.world], fun n hn => .inr ?_⟩
    simpa using hn
  | disconnect => exact ⟨[.closed], by simp [Finish.world], fun n hn => by simp at hn⟩
  | invalid => exact .refl _ _

theorem untouched_close (t : Transaction) (W : Wait) :
    Untouched t.doneS t.sizeofDone w (t.close W w).2 := by
  unfold Transaction.close
  cases W.ending with
  | got h rest => exact (untouched_wait _ _ W).trans (untouched_finish _ _ _ _ _)
  | _ => exact untouched_wait _ _ W

theorem noPacketRead_close {t : Transaction} (hr : t.reception = some r) (W : Wait) :
    NoPacketRead r.v w (t.close W w).2 := by
  unfold Transaction.close
  cases W.ending with
  | got h rest =>
    rw [(reception_ends hr).2]
    exact (noPacketRead_wait _ W).trans (noPacketRead_finish _ _ _)
  | _ => exact noPacketRead_wait _ W

theorem kept_verdict {t : Transaction} (hr : t.reception = some r) (abort : Abort) :
    let w₁ := (r.judged t.doneS w).sent [.raw (bytes (verdict (r.accepts t.doneS w)))]
    let w' := if r.accepts t.doneS w = 1 then
      (t.close (await w₁.abortF w₁.calls abort w₁.link.ptd) w₁).2 else w₁
    Untouched t.doneS t.sizeofDone w w' ∧ NoPacketRead r.v w w' := by
  intro w₁ w'
  have hun : Untouched t.doneS t.sizeofDone w w₁ := by
    simp only [w₁, Reception.judged]
    cases r.devRxevalF <;> exact ⟨.refl _ _ _, rfl, rfl⟩
  have hno : NoPacketRead r.v w w₁ :=
    ⟨[.raw (bytes (verdict (r.accepts t.doneS w)))], by simp [w₁], fun n hn => by simp at hn⟩
  simp only [w']
  split
  · exact ⟨hun.trans (untouched_close t _), hno.trans (noPacketRead_close hr _)⟩
  · exact ⟨hun, hno⟩

theorem wait_said_got {W : Wait} (hW : W.ending = .got h rest) :
    W.said = W.answers.map .rerespAbortreeval := by
  simp [Wait.said, hW]

theorem transaction_not_verdict (t : Transaction) (mem : Mem) :
    (t.message mem).isVerdict = false := by
  cases t <;> rfl

theorem upTo_wait (v : RxVersion) (m : DevMsg) {f : Option DevAbortReevalF} {abort : Abort}
    {W : Wait} (hWd : await f w.calls abort w.link.ptd = W)
    (hW : W.ending = .got v.addressfound s) : UpTo v s w (W.world (w.sent m.events)) := by
  have hfine : Fine w (W.world (w.sent m.events)) :=
    (fine_sent (asked_events m)).trans (fine_wait hWd hW)
  have hsent : NoPacketRead v w (w.sent m.events) :=
    ⟨m.events, rfl, readsNoPacket_headers fun n hn => absurd hn (read_not_mem_events m n)⟩
  obtain ⟨s', cs, -, -, hcalls, hasked⟩ := await_of f w.calls abort w.link.ptd
  rw [hWd] at hcalls hasked
  rw [hW] at hasked
  have hreads := hsent.trans (noPacketRead_wait v W)
  have hworld := Wait.world_got (w := w.sent m.events) hW
  refine ⟨?_, ?_, ?_, hreads, ?_, hfine.claimed, cs, ?_, fun c hc => ?_⟩
  · rw [hworld]
    rfl
  · rw [hworld]
    rfl
  · rw [hworld]
    rfl
  · rw [hworld]
    rfl
  · rw [hworld]
    exact hcalls
  · obtain ⟨a, rfl⟩ := hasked c hc
    exact ⟨a, 0, rfl⟩

theorem picks_transaction {t : Transaction} {r : Reception} (hc : w.link.connected = true)
    (hr : t.reception = some r)
    (hW : (await w.abortF w.calls t.abort w.link.ptd).ending = .got r.v.addressfound s)
    (hshort : ¬ CameShort w ((CbReq.transaction t).exec.run w).2) :
    Picks r.v t.doneS r.rxBuf r.bufSize s w ((CbReq.transaction t).exec.run w) := by
  obtain ⟨es, hlog, hwrote⟩ := said_log (.cb (.transaction t)) w
  generalize hWd : await w.abortF w.calls t.abort w.link.ptd = W at hW
  generalize hw₁ : W.world (w.sent (t.message w.mem).events) = w₁
  have hup : UpTo r.v s w w₁ := by
    rw [← hw₁]
    exact upTo_wait r.v (t.message w.mem) hWd hW
  have hproceed : t.proceed w = t.afterFound r W.abort w₁ := by
    rw [← hw₁]
    exact proceed_found hr rfl hWd hW
  have hsaid : t.said w = t.message w.mem :: (W.said ++ t.saidAfterFound r W.abort w₁) := by
    simp only [Transaction.said, World.sent_abortF, World.sent_calls, World.sent_link,
      PbDevState.add_ptd, hWd, hr, hW, if_true, hw₁]
  simp only [Call.exec, Call.said, CbReq.said, if_pos hc, hsaid,
    run_transaction_open hc, hproceed, Transaction.afterFound, Transaction.saidAfterFound, hup.ptd]
    at hlog hwrote hshort ⊢
  have hof := found_of r.v r.bufSize s
  generalize r.v.found r.bufSize s = f at hof hlog hwrote hshort ⊢
  refine picks_found (t.message w.mem :: W.answers.map .rerespAbortreeval) hup hof hshort
    (fun hf => ?_) (fun hf => ?_) (fun m hm => ?_) fun hf => ?_
  · simp only [hf, Bool.false_eq_true, if_false, dropAbort]
    rfl
  · rw [wrote_eq hlog hwrote, wait_said_got hW, hf]
    rfl
  · rcases List.mem_cons.mp hm with rfl | hm
    · exact ⟨transaction_not_verdict t w.mem, (message_stays t w.mem).1⟩
    · obtain ⟨a, -, rfl⟩ := List.mem_map.mp hm
      exact ⟨rfl, by simp⟩
  · have hkept := kept_verdict (w := f.world r.v t.doneS r.rxBuf r.bufSize w₁) hr W.abort
    rw [(reception_ends hr).2] at hkept
    simp only [hf, if_true, dropAbort, apply_ite Prod.snd]
    exact hkept

theorem untouched_transaction {t : Transaction} {r : Reception} (hc : w.link.connected = true)
    (hr : t.reception = some r)
    (hW : ∀ s, (await w.abortF w.calls t.abort w.link.ptd).ending ≠ .got r.v.addressfound s) :
    Untouched t.doneS t.sizeofDone w ((CbReq.transaction t).exec.run w).2 := by
  generalize hWd : await w.abortF w.calls t.abort w.link.ptd = W at hW
  have hproceed : t.proceed w = t.close W (w.sent (t.message w.mem).events) := by
    refine proceed_close rfl hWd fun h s r' hend hr' => ?_
    obtain rfl := Option.some.inj (hr.symm.trans hr')
    rintro rfl
    exact hW s hend
  have hsent : Untouched t.doneS t.sizeofDone w (w.sent (t.message w.mem).events) :=
    ⟨.refl _ _ _, rfl, rfl⟩
  rw [run_transaction_open hc, hproceed]
  exact hsent.trans (untouched_close t W)

-- ---------------------------------------------------------------------------
-- Without callbacks: one call
-- ---------------------------------------------------------------------------

theorem heed_addressfound (hg : nc.weGotAddress = false) (v : RxVersion) (s : List Byte) :
    (Listener.rx v).heed nc v.addressfound s = .found v (v.found nc.bufsize s) := by
  simp [Listener.heed, Listener.finds, hg]

theorem read_not_mem_ncEvents (c : NcReq) (mem : Mem) (n : Nat) : .read n ∉ c.events mem := by
  cases c with
  | rxCont devAccepts => simp [NcReq.events]
  | rxv2Cont devAccepts abort => cases devAccepts <;> simp [NcReq.events]
  | _ => exact read_not_mem_events _ n

variable {c : NcReq}

theorem upTo_spoken (c : NcReq) (hs : w.link.ptd = bytes v.addressfound ++ s) :
    UpTo v s w ((c.spoken w).took (sizeof PcHeader) s) := by
  refine ⟨rfl, rfl, rfl, ?_, rfl, ?_, [], (List.append_nil _).symm, by simp⟩
  · refine ⟨c.events w.mem ++ [.read (sizeof PcHeader)], by simp, ?_⟩
    refine readsNoPacket_headers fun n hn => ?_
    rcases List.mem_append.mp hn with hn | hn
    · exact absurd hn (read_not_mem_ncEvents c w.mem n)
    · simpa using hn
  · have hlen : (c.spoken w).link.ptd.length = sizeof PcHeader + s.length := by
      have hptd : (c.spoken w).link.ptd = bytes v.addressfound ++ s := hs
      rw [hptd, List.length_append, length_bytes]
    exact (claimed_took hlen).trans (claimed_spoken c)

theorem picks_exec (hsp : c.Speaks w) (hl : c.listener = some (.rx v))
    (hg : (c.notes w.nc).weGotAddress = false) (hs : w.link.ptd = bytes v.addressfound ++ s)
    (hverdict : (c.message w.mem).isVerdict = false)
    (hshort : ¬ CameShort w (c.exec.run w).2) :
    Picks v (v.doneS (c.notes w.nc)) (c.notes w.nc).rxbuf (c.notes w.nc).bufsize s w
      (c.exec.run w) := by
  have hhear : (Listener.rx v).hear (c.notes w.nc) w.link.ptd =
      .found v (v.found (c.notes w.nc).bufsize s) := by
    rw [hs, hear_bytes, heed_addressfound hg]
  have hsaid : c.said w = c.message w.mem :: (v.found (c.notes w.nc).bufsize s).said := by
    refine (if_pos hsp).trans ?_
    rw [hl]
    exact congrArg (fun heard : Heard => c.message w.mem :: heard.said) hhear
  obtain ⟨es, hlog, hwrote⟩ := said_log (.nc c) w
  have hrun := run_exec_heard hsp.1 c hsp.2 hl
  rw [hhear] at hrun
  have hof := found_of v (c.notes w.nc).bufsize s
  simp only [Call.exec, Call.said, hsaid, hrun] at hlog hwrote hshort ⊢
  generalize v.found (c.notes w.nc).bufsize s = f at hof hlog hwrote hshort ⊢
  generalize hw₀ : (c.spoken w).took (sizeof PcHeader) s = w₀
  have hup : UpTo v s w w₀ := by
    rw [← hw₀]
    exact upTo_spoken c hs
  have hworld : (Heard.found v f).world (.rx v) (c.spoken w) = f.judged (f.world v
      (v.doneS (c.notes w.nc)) (c.notes w.nc).rxbuf (c.notes w.nc).bufsize w₀) := by
    rw [← hw₀, ← Found.world_took _ _ _ _ _ _ [] s]
    rfl
  simp only [Heard.outcome, hworld] at hlog hshort ⊢
  refine picks_found [c.message w.mem] hup hof hshort (fun hf => ?_)
    (fun _ => wrote_eq hlog hwrote) (fun m hm => ?_) fun _ => ?_
  · cases f with
    | whole done packet rest => cases hf
    | _ => rfl
  · obtain rfl := List.mem_singleton.mp hm
    exact ⟨hverdict, (ncMessage_stays c w.mem).1⟩
  · cases f <;> exact ⟨⟨.refl _ _ _, rfl, rfl⟩, .refl _ _⟩

theorem untouched_heard {heard : Heard} {l : Listener} {s : List Byte} (hof : heard.Of l w.nc s)
    (hn : ∀ v f, heard ≠ .found v f) :
    Untouched (l.doneS w.nc) l.sizeofDone w (heard.world l w) := by
  have hstored : ∀ bs : List Byte, bs.length ≤ l.sizeofDone →
      Within (l.doneS w.nc) l.sizeofDone w.mem (store w.mem (l.doneS w.nc) bs) :=
    fun bs => within_store w.mem (l.doneS w.nc)
  cases heard with
  | found v f => exact absurd rfl (hn v f)
  | endCut h s' =>
    refine ⟨?_, ?_, ?_⟩
    · simpa [Heard.world] using hstored _ (length_leftover l.sizeofDone s')
    · cases l <;> rfl
    · cases l <;> rfl
  | ended h done rest =>
    obtain ⟨-, -, hdone⟩ := hof
    by_cases hl : l = .wait
    · subst hl
      exact ⟨.refl _ _ _, rfl, rfl⟩
    · rw [Heard.world, tookDone_clear hl]
      refine ⟨?_, ?_, ?_⟩
      · simpa using hstored done (Nat.le_of_eq hdone)
      · cases l <;> rfl
      · cases l <;> rfl
  | _ => cases l <;> exact ⟨.refl _ _ _, rfl, rfl⟩

def NcReq.fillsAt (c : NcReq) (nc : DevStateNc) : Addr × Nat :=
  match c.listener with
  | some l => (l.doneS (c.notes nc), l.sizeofDone)
  | none => (0, 0)

/-- A call of a reception that is told of an address, the bytes `s` following. -/
def Made.Told (m : Made) (v : RxVersion) (s : List Byte) : Prop :=
  m.call.Speaks m.before ∧ m.call.listener = some (.rx v) ∧
    m.before.link.ptd = bytes v.addressfound ++ s

def Made.Untouched (m : Made) : Prop :=
  PhyCom2G4.Untouched (m.call.fillsAt m.before.nc).1 (m.call.fillsAt m.before.nc).2 m.before
    m.result.2

/-- A call that is told of no address, or that is told of one more. -/
theorem untouched_exec (h : (c.notes w.nc).weGotAddress = true ∨ ∀ v s, ¬ Made.Told ⟨c, w, r⟩ v s) :
    Made.Untouched ⟨c, w, c.exec.run w⟩ := by
  unfold Made.Untouched
  cases hc : w.link.connected with
  | false =>
    rw [run_exec_closed hc]
    exact .refl _ _ _
  | true =>
  cases hp : c.passes w.nc with
  | false =>
    rw [run_exec_stopped hc c hp]
    exact ⟨.refl _ _ _, rfl, rfl⟩
  | true =>
  cases hl : c.listener with
  | none =>
    rw [run_exec_reject hc c hp hl]
    exact ⟨.refl _ _ _, rfl, rfl⟩
  | some l =>
    have hof := hear_of l (c.notes w.nc) w.link.ptd
    have hn : ∀ v f, l.hear (c.notes w.nc) w.link.ptd ≠ .found v f := by
      intro v f hf
      rw [hf] at hof
      obtain ⟨rfl, hg, s, hs, -⟩ := hof
      rcases h with h | h
      · simp [h] at hg
      · exact h v s ⟨⟨hc, hp⟩, hl, hs⟩
    rw [run_exec_heard hc c hp hl]
    have hun := untouched_heard (w := c.spoken w) hof hn
    simp only [NcReq.fillsAt, hl]
    exact ⟨hun.mem, hun.ptr, hun.heap⟩

-- ---------------------------------------------------------------------------
-- Without callbacks: a whole reception
-- ---------------------------------------------------------------------------

/-- The buffer that the library goes by is the one of the request. -/
structure InReception (rxBuf : Addr) (bufSize : Nat) (found : Bool) (nc : DevStateNc) : Prop where
  rxbuf : nc.rxbuf = rxBuf
  bufsize : nc.bufsize = bufSize
  weGotAddress : nc.weGotAddress = found
  judging : nc.ongoing = .rxHeaderEval → found = true

def Past (rxBuf : Addr) (bufSize : Nat) (w : World) : Prop :=
  w.link.connected = false ∨ InReception rxBuf bufSize true w.nc

omit [LibPhyCom] in
theorem InReception.setOngoing (h : InReception rxBuf bufSize found nc)
    (ho : o = .rxHeaderEval → found = true) :
    InReception rxBuf bufSize found { nc with ongoing := o } :=
  ⟨h.rxbuf, h.bufsize, h.weGotAddress, ho⟩

theorem inReception_exec (h : InReception rxBuf bufSize found (c.notes w.nc))
    (ho : c.opens = none ∨ c.Speaks w) (hn : found = true ∨ ∀ v s, ¬ Made.Told ⟨c, w, r⟩ v s) :
    InReception rxBuf bufSize found (c.exec.run w).2.nc := by
  by_cases hsp : c.Speaks w
  · cases hl : c.listener with
    | none =>
      rw [run_exec_reject hsp.1 c hsp.2 hl]
      exact h.setOngoing nofun
    | some l =>
      have hof := hear_of l (c.notes w.nc) w.link.ptd
      rw [run_exec_heard hsp.1 c hsp.2 hl]
      have hj : (l.hear (c.notes w.nc) w.link.ptd).judges = false := by
        generalize l.hear (c.notes w.nc) w.link.ptd = heard at hof
        cases heard with
        | found v f =>
          obtain ⟨rfl, hg, s, hs, -⟩ := hof
          rcases hn with rfl | hn
          · simp [h.weGotAddress] at hg
          · exact absurd ⟨hsp, hl, hs⟩ (hn v s)
        | _ => rfl
      obtain ⟨o, hnc, hoe⟩ := heard_nc hj l (c.spoken w)
      rw [Heard.outcome, hnc]
      exact h.setOngoing fun he => h.judging ((hoe he).symm.trans he)
  · have hopens := ho.resolve_right hsp
    rw [notes_of_not_opens hopens] at h
    cases hc : w.link.connected with
    | false =>
      rw [run_exec_closed hc]
      exact h
    | true =>
      have hp : c.passes w.nc = false := by simpa [NcReq.Speaks, hc] using hsp
      rw [run_exec_stopped hc c hp, notesFirst_of_not_opens hopens]
      exact h

theorem Past.setOwn (h : Past rxBuf bufSize w) (own : Own) : Past rxBuf bufSize (w.setOwn own) := h

theorem past_exec (hopens : c.opens = none) (h : Past rxBuf bufSize w) :
    Past rxBuf bufSize (c.exec.run w).2 ∧ Made.Untouched ⟨c, w, c.exec.run w⟩ := by
  rcases h with hc | h
  · refine ⟨.inl ?_, untouched_exec (r := c.exec.run w) (.inr fun v s ht => ?_)⟩
    · rw [run_exec_closed hc, hc]
    · exact Bool.false_ne_true (hc.symm.trans ht.1.1)
  · rw [← notes_of_not_opens hopens w.nc] at h
    exact ⟨.inr (inReception_exec (r := c.exec.run w) h (.inl hopens) (.inl rfl)),
      untouched_exec (r := c.exec.run w) (.inl h.weGotAddress)⟩

theorem past_of_told (h : InReception rxBuf bufSize false (c.notes w.nc))
    (ht : Made.Told ⟨c, w, r⟩ v s) : Past rxBuf bufSize (c.exec.run w).2 := by
  obtain ⟨hsp, hl, hs⟩ := ht
  have hhear : (Listener.rx v).hear (c.notes w.nc) w.link.ptd =
      .found v (v.found (c.notes w.nc).bufsize s) := by
    rw [hs, hear_bytes, heed_addressfound h.weGotAddress]
  rw [run_exec_heard hsp.1 c hsp.2 hl, hhear]
  generalize v.found (c.notes w.nc).bufsize s = f
  cases f with
  | whole done packet rest =>
    refine .inr ⟨?_, ?_, ?_, fun _ => rfl⟩
    · simpa [Heard.outcome, Heard.world, Found.judged] using h.rxbuf
    · simpa [Heard.outcome, Heard.world, Found.judged] using h.bufsize
    · simp [Heard.outcome, Heard.world, Found.judged]
  | _ => exact .inl rfl

/-- A call that is told of a first address says no verdict. -/
theorem not_verdict (h : InReception rxBuf bufSize false (c.notes w.nc))
    (ht : Made.Told ⟨c, w, r⟩ v s) : (c.message w.mem).isVerdict = false := by
  obtain ⟨⟨hc, hp⟩, hl, -⟩ := ht
  have hjudging : (c.notes w.nc).ongoing ≠ .rxHeaderEval := fun he => by
    simpa using h.judging he
  cases c with
  | rxCont devAccepts => exact absurd ((passes_iff rfl).mp hp) hjudging
  | rxv2Cont devAccepts abort => exact absurd ((passes_iff rfl).mp hp) hjudging
  | _ => rfl

/-- Of the calls of a reception the first that is told of an address picks its packet.
No other changes more than its done structure. -/
inductive Once (rxBuf : Addr) (bufSize : Nat) : List Made → Prop
  | nil : Once rxBuf bufSize []
  | pass {m : Made} {ms : List Made} (hn : ∀ v s, ¬ m.Told v s) (h : m.Untouched)
    (hs : Once rxBuf bufSize ms) : Once rxBuf bufSize (m :: ms)
  | picked {m : Made} {ms : List Made} {v : RxVersion} {s : List Byte} (ht : m.Told v s)
    (h : Picks v (v.doneS (m.call.notes m.before.nc)) rxBuf bufSize s m.before m.result)
    (hs : ∀ m' ∈ ms, m'.Untouched) : Once rxBuf bufSize (m :: ms)

theorem session_cons (c : NcReq) (own : Own) (c' : NcReq) (steps : List (Own × NcReq)) (w : World) :
    ∃ ms, session c ((own, c') :: steps) w = ⟨c, w, c.exec.run w⟩ :: ms ∧
      (ms = [] ∨ ms = session c' steps ((c.exec.run w).2.setOwn own)) := by
  refine ⟨_, rfl, ?_⟩
  cases (c.exec.run w).1 with
  | ok ret => exact .inr rfl
  | error e => exact .inl rfl

theorem past_session (ho : c.opens = none) (h : Past rxBuf bufSize w) (steps : List (Own × NcReq))
    (hsteps : ∀ s ∈ steps, s.2.opens = none) : ∀ m ∈ session c steps w, m.Untouched := by
  induction steps generalizing c w with
  | nil =>
    intro m hm
    obtain rfl := List.mem_singleton.mp hm
    exact (past_exec ho h).2
  | cons s steps ih =>
    obtain ⟨hpast, hun⟩ := past_exec ho h
    obtain ⟨ms, hms, hlater⟩ := session_cons c s.1 s.2 steps w
    rw [hms]
    intro m hm
    rcases List.mem_cons.mp hm with rfl | hm
    · exact hun
    · rcases hlater with rfl | rfl
      · cases hm
      · have ho' := hsteps s (List.mem_cons_self ..)
        exact ih ho' (hpast.setOwn s.1) (fun s' hs' => hsteps s' (List.mem_cons_of_mem _ hs')) m hm

theorem once_cons (h : InReception rxBuf bufSize false (c.notes w.nc))
    (ho : c.opens = none ∨ c.Speaks w) (hs : ¬ CameShort w (c.exec.run w).2)
    (hpast : Past rxBuf bufSize (c.exec.run w).2 → ∀ m ∈ ms, m.Untouched)
    (hin : InReception rxBuf bufSize false (c.exec.run w).2.nc → Once rxBuf bufSize ms) :
    Once rxBuf bufSize (⟨c, w, c.exec.run w⟩ :: ms) := by
  by_cases ht : ∃ v s, Made.Told ⟨c, w, c.exec.run w⟩ v s
  · obtain ⟨v, s, ht⟩ := ht
    refine .picked ht ?_ (hpast (past_of_told h ht))
    have hpicks := picks_exec ht.1 ht.2.1 h.weGotAddress ht.2.2 (not_verdict h ht) hs
    rwa [h.rxbuf, h.bufsize] at hpicks
  · have hn : ∀ v s, ¬ Made.Told ⟨c, w, c.exec.run w⟩ v s := fun v s ht' => ht ⟨v, s, ht'⟩
    exact .pass hn (untouched_exec (.inr hn)) (hin (inReception_exec h ho (.inr hn)))

theorem once_session (h : InReception rxBuf bufSize false (c.notes w.nc))
    (ho : c.opens = none ∨ c.Speaks w) (steps : List (Own × NcReq))
    (hsteps : ∀ s ∈ steps, s.2.opens = none)
    (hshort : ∀ m ∈ session c steps w, ¬ CameShort m.before m.result.2) :
    Once rxBuf bufSize (session c steps w) := by
  -- `InReception` is what a call keeps that is told of no address; the first that is told
  -- of one leaves `Past`, which all others keep.
  induction steps generalizing c w with
  | nil =>
    refine once_cons h ho (hshort _ (List.mem_singleton_self _)) (fun _ => ?_) fun _ => .nil
    simp
  | cons s steps ih =>
    have ho' := hsteps s (List.mem_cons_self ..)
    have hsteps' : ∀ s ∈ steps, s.2.opens = none := fun s' hs' =>
      hsteps s' (List.mem_cons_of_mem _ hs')
    obtain ⟨ms, hms, hlater⟩ := session_cons c s.1 s.2 steps w
    rw [hms] at hshort ⊢
    refine once_cons h ho (hshort _ (List.mem_cons_self ..)) (fun hpast => ?_) fun hin => ?_
    · rcases hlater with rfl | rfl
      · simp
      · exact past_session ho' (hpast.setOwn s.1) steps hsteps'
    · rcases hlater with rfl | rfl
      · exact .nil
      · refine ih ?_ (.inl ho') hsteps' fun m hm => hshort m (List.mem_cons_of_mem _ hm)
        rw [notes_of_not_opens ho']
        exact hin

theorem inReception_notes (hb : c.buffer = some (rxBuf, bufSize)) (hsp : c.Speaks w) :
    InReception rxBuf bufSize false (c.notes w.nc) := by
  obtain ⟨-, hp⟩ := hsp
  have hidle : c.expects = some .nothing → (c.notes w.nc).ongoing ≠ .rxHeaderEval := by
    intro he
    rw [notes_ongoing, (passes_iff he).mp hp]
    decide
  cases c with
  | rx | rxv2 | rx2v1 =>
    obtain ⟨rfl, rfl⟩ := Prod.mk.inj (Option.some.inj hb)
    exact ⟨rfl, rfl, rfl, fun h => absurd h (hidle rfl)⟩
  | _ => cases hb

/-- Of a reception whose reads do not come short, with callbacks or without, in any
version and for any buffer, at most one packet is picked, whole and into the buffer of
the request or not at all. -/
theorem packets_whole :
    (∀ (t : Transaction) (r : Reception) (w : World), t.reception = some r →
      w.link.connected = true → ¬ CameShort w ((CbReq.transaction t).exec.run w).2 →
      t.PicksOnce r w) ∧
    (∀ (c : NcReq) (rxBuf bufSize : Nat) (w : World) (steps : List (Own × NcReq)),
      c.buffer = some (rxBuf, bufSize) → c.Speaks w → (∀ s ∈ steps, s.2.opens = none) →
      (∀ m ∈ session c steps w, ¬ CameShort m.before m.result.2) →
      Once rxBuf bufSize (session c steps w)) := by
  constructor
  · intro t r w hr hc hshort
    exact ⟨fun s hW => picks_transaction hc hr hW hshort, untouched_transaction hc hr⟩
  · intro c rxBuf bufSize w steps hb hsp hsteps hshort
    exact once_session (inReception_notes hb hsp) (.inr hsp) steps hsteps hshort

end

end PhyCom2G4

namespace PhyCom2G4

open Bytes Memory Program Program.Prog

attribute [local instance] LibPhyCom.posix

def toldOf (n : Byte) (packet : List Byte) : World :=
  World.start (bytes msgAbortreeval ++ bytes msgRxAddressfound ++ [0, 0, n] ++
    List.replicate 21 0 ++ packet ++ bytes msgRxEnd ++ List.replicate 24 0)

def renewed : List (Own × NcReq) := [(⟨fun _ => 0, fun _ => 0, []⟩, .newRxAbort (parse []))]

/-- A packet of one byte without a buffer, with callbacks, and one of two bytes too big
for its buffer, without. -/
theorem packets_whole_posix :
    (Transaction.rx (parse []) 0x100 0x200 0 none).PicksOnce ⟨.v1, 0x200, 0, none⟩
      (toldOf 1 [7]) ∧
    Once 0x200 1 (session (.rx (parse []) 0x100 0x200 1) renewed (toldOf 2 [7, 8])) := by
  constructor
  · refine packets_whole.1 _ _ _ rfl rfl ?_
    show ¬ (_ < _)
    decide +kernel
  · refine packets_whole.2 _ 0x200 1 _ renewed rfl ⟨rfl, rfl⟩ ?_ ?_
    · intro s hs
      obtain rfl := List.mem_singleton.mp hs
      rfl
    · show ∀ m ∈ session _ _ _, ¬ (m.before.link.claimed < m.result.2.link.claimed)
      decide +kernel

end PhyCom2G4
