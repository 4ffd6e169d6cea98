import PhyCom2G4.Lib.Runs
import PhyCom2G4.Calls

/-!
# What a closed link leaves behind

A transaction is half open, to the library, as long as `ongoing` says so. Some
of the ways in which the link closes clear it and some do not; a run leaves
nothing half open just when none of its steps takes one of the latter
(`settled_iff`).
-/

namespace PhyCom2G4

open Bytes Memory Program Program.Prog Runs LibPhyCom

variable [LibPhyCom]

/-- A closed link leaves no transaction half open. -/
def World.Settled (w : World) : Prop := w.link.connected = false → w.nc.ongoing = .nothing

/-- A step of a device of the family without callbacks, or of its phy. Between
its calls the device may do what it likes with its memory, and the phy may
have anything to say. -/
inductive NcMove
  | call (c : NcReq)
  | disconnect
  | terminate
  | initComSNc (d : UInt32) (s p : String)
  | initcomNc (d : UInt32) (s p : String)
  | device (mem : Mem) (ptr : Addr → Addr) (heap : List Block)
  | phy (ptd : List Byte)

def NcMove.exec : NcMove → World → World
  | .call c, w => (c.exec.run w).2
  | .disconnect, w => (devDisconnectSNc.run w).2
  | .terminate, w => (devTerminateSNc.run w).2
  | .initComSNc d s p, w => ((devInitComSNc d s p).run w).2
  | .initcomNc d s p, w => ((devInitcomNc d s p).run w).2
  | .device mem ptr heap, w => { w with mem, ptr, heap }
  | .phy ptd, w => { w with link := { w.link with ptd } }

/-- A session is opened when there is none, or opened afresh. -/
def NcMove.Proper : NcMove → World → Prop
  | .initComSNc d s p, w | .initcomNc d s p, w =>
    w.link.connected = false ∨ (pbDevInitCom d s p w.link).1 = 0
  | _, _ => True

/-- The link closes, on a path that does not clear `ongoing`. -/
def Heard.dangles (l : Listener) : Heard → Prop
  | .cut => True
  | .found _ f => f.complete = false
  | .disconnect _ | .endCut .. => match l with
    | .rssi _ | .wait => True
    | _ => False
  | _ => False

def NcMove.Dangles : NcMove → World → Prop
  | .call c, w => w.link.connected = true ∧ w.nc.ongoing ≠ .nothing ∧ c.passes w.nc = true ∧
      ∃ l, c.listener = some l ∧ (l.hear (c.notes w.nc) w.link.ptd).dangles l
  | .disconnect, w | .terminate, w => w.link.connected = true ∧ w.nc.ongoing ≠ .nothing
  | _, _ => False

section
variable {w : World}

@[simp] theorem clear_ongoing (l : Listener) (w : World) :
    (l.clear w).nc.ongoing = match l with
      | .rssi _ | .wait => w.nc.ongoing
      | _ => .nothing := by
  cases l <;> rfl

theorem settled_of_connected (hc : w.link.connected = true) : w.Settled := fun hf =>
  absurd hc (by simp [hf])

theorem settled_closed (hf : w.link.connected = false) : w.Settled ↔ w.nc.ongoing = .nothing :=
  ⟨fun h => h hf, fun h _ => h⟩

/-- A wait settles what it closes, but for the paths that dangle. -/
theorem settled_heard (hc : w.link.connected = true) (heard : Heard) (l : Listener) :
    (heard.world l w).Settled ↔ ¬ (w.nc.ongoing ≠ .nothing ∧ heard.dangles l) := by
  cases heard with
  | cut =>
    rw [settled_closed rfl]
    simp [Heard.world, Heard.dangles]
  | reeval rest =>
    have h : (Heard.world l (.reeval rest) w).link.connected = true := by
      cases hl : l.reeval <;> simp [Heard.world, hl, hc]
    simp [settled_of_connected h, Heard.dangles]
  | found v f =>
    simp only [Heard.dangles]
    cases hf : f.complete with
    | true =>
      have h : (Heard.world l (.found v f) w).link.connected = true := by
        simp [Heard.world, found_connected, hf, hc]
      simp [settled_of_connected h]
    | false =>
      rw [settled_closed (by simp [Heard.world, found_connected, hf])]
      cases f <;> simp [Heard.world, Found.judged, Found.complete] at hf ⊢
  | disconnect rest =>
    rw [settled_closed rfl]
    cases l <;> simp [Heard.world, Heard.dangles]
  | endCut h s =>
    rw [settled_closed rfl]
    cases l <;> simp [Heard.world, Heard.dangles]
  | ended h done rest =>
    have hw : (Heard.world l (.ended h done rest) w).link.connected = true := by
      cases l <;> simp [Heard.world, World.tookDone, hc]
    simp [settled_of_connected hw, Heard.dangles]
  | invalid h rest =>
    have hw : (Heard.world l (.invalid h rest) w).link.connected = true := by
      cases l <;> simp [Heard.world, hc]
    simp [settled_of_connected hw, Heard.dangles]

theorem settled_call (hs : w.Settled) (c : NcReq) :
    (NcMove.exec (.call c) w).Settled ↔ ¬ NcMove.Dangles (.call c) w := by
  simp only [NcMove.exec, NcMove.Dangles]
  cases hc : w.link.connected with
  | false => simp [run_exec_closed hc, hs]
  | true =>
  cases hp : c.passes w.nc with
  | false =>
    rw [run_exec_stopped hc c hp]
    simpa using settled_of_connected (w := { w with nc := c.notesFirst w.nc }) hc
  | true =>
    rw [run_exec_open hc c hp]
    unfold NcReq.proceed
    cases hl : c.listener with
    | none => simpa using settled_of_connected (w := (c.spoken w).setOngoing .nothing) hc
    | some l =>
      refine (settled_heard (w := c.spoken w) hc _ l).trans ?_
      simp

theorem settled_left (hs : w.Settled) (events : List Event) {w' : World}
    (hopen : w.link.connected = true → w' = w.shut events)
    (hclosed : w.link.connected = false → w' = w) :
    w'.Settled ↔ ¬ (w.link.connected = true ∧ w.nc.ongoing ≠ .nothing) := by
  cases hc : w.link.connected with
  | false => simp [hclosed hc, hs]
  | true =>
    rw [hopen hc, settled_closed rfl]
    simp

theorem settled_initCom (hs : w.Settled) {d : UInt32} {s p : String} (nc : DevStateNc)
    (h : w.link.connected = false ∨ (pbDevInitCom d s p w.link).1 = 0)
    (hnc : w.nc.ongoing = .nothing → nc.ongoing = .nothing) :
    World.Settled { w with link := (pbDevInitCom d s p w.link).2, nc } := by
  intro hf
  by_cases h0 : (pbDevInitCom d s p w.link).1 = 0
  · rw [pbDevInitCom_ok _ _ _ _ h0] at hf
    simp at hf
  · exact hnc (hs (h.resolve_right h0))

theorem settled_exec (m : NcMove) (w : World) (hs : w.Settled) (hm : m.Proper w) :
    (m.exec w).Settled ↔ ¬ m.Dangles w := by
  cases m with
  | call c => exact settled_call hs c
  | disconnect =>
    refine settled_left hs [.msg msgDisconnect []] (fun hc => ?_) (fun hc => ?_)
    · rw [NcMove.exec, devDisconnectSNc, run_devDisconnect hc]
    · rw [NcMove.exec, devDisconnectSNc, run_devDisconnect_closed hc]
  | terminate =>
    refine settled_left hs [.msg msgTerminate []] (fun hc => ?_) (fun hc => ?_)
    · rw [NcMove.exec, devTerminateSNc, run_devTerminate hc]
    · rw [NcMove.exec, devTerminateSNc, run_devTerminate_closed hc]
  | initComSNc d s p => exact iff_of_true (settled_initCom hs w.nc hm id) id
  | initcomNc d s p =>
    exact iff_of_true (settled_initCom hs (w.setOngoing .nothing).nc hm fun _ => rfl) id
  | device mem ptr heap => exact iff_of_true hs id
  | phy ptd => exact iff_of_true hs id

/-- A closed link leaves nothing half open all along a run just when no step
closes the link without clearing `ongoing`. The next session takes `ongoing`
over as it was left, unless its opening clears it. -/
theorem settled_iff (hs : w.Settled) {moves : List NcMove}
    (hm : Along NcMove.exec NcMove.Proper moves w) :
    ((∀ w' ∈ states NcMove.exec moves w, w'.Settled) ↔
      Along NcMove.exec (fun m w => ¬ m.Dangles w) moves w) ∧
    ∀ w' ∈ states NcMove.exec moves w, ∀ d s p (c : NcReq), c.expects = some .nothing →
      (c.passes ((devInitComSNc d s p).run w').2.nc = true ↔ w'.nc.ongoing = .nothing) ∧
      c.passes ((devInitcomNc d s p).run w').2.nc = true :=
  ⟨invariant_iff settled_exec hs hm, fun _ _ _ _ _ _ hc =>
    ⟨passes_iff hc, (passes_iff hc).mpr rfl⟩⟩

end

end PhyCom2G4

namespace PhyCom2G4

open Bytes Program Program.Prog Runs

attribute [local instance] LibPhyCom.posix

/-- A transmission is asked to re-evaluate its abort and the link is cut before
the next header: the next session starts with its first request stopped. -/
theorem half_open_after_cut :
    let tx := NcReq.tx (parse []) 0 0
    let moves := [.call tx, .call (.newTxAbort (parse [])), .initComSNc 0 "" ""]
    let w := World.start (bytes msgAbortreeval)
    (∃ w' ∈ states NcMove.exec moves w, ¬ w'.Settled) ∧
      (tx.exec.run (moves.foldl (fun w m => m.exec w) w)).1 = .error (.error tx.complaint) :=
  ⟨⟨_, .tail _ (.tail _ (.head _)), fun h => absurd (h rfl) (by decide)⟩, rfl⟩

theorem settled_iff_tx :
    let w := World.start (bytes msgTxEnd ++ bytes (0 : UInt64))
    let moves := [.call (.tx (parse []) 0 0), .disconnect, .initComSNc 0 "" ""]
    ((∀ w' ∈ states NcMove.exec moves w, w'.Settled) ↔
      Along NcMove.exec (fun m w => ¬ m.Dangles w) moves w) ∧
    ∀ w' ∈ states NcMove.exec moves w, ∀ d s p (c : NcReq), c.expects = some .nothing →
      (c.passes ((devInitComSNc d s p).run w').2.nc = true ↔ w'.nc.ongoing = .nothing) ∧
      c.passes ((devInitcomNc d s p).run w').2.nc = true :=
  settled_iff (settled_of_connected rfl) ⟨trivial, trivial, .inl rfl, trivial⟩

end PhyCom2G4
