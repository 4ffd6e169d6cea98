import PhyCom2G4.Speech

/-!
# Sessions

A closed link is never used again: whatever a device calls and whatever the
phy sends, in the log of a session nothing follows the moment the link
closes, and there is at most one message by which the device leaves.
-/

namespace PhyCom2G4

open Bytes Program Program.Prog LibPhyCom

variable [LibPhyCom]

/-- One step of a device with its phy: a call of the library, anything the
device does to what is its own, anything the phy has to say. A session is
opened when there is none, or opened afresh. -/
inductive Step : World → World → Prop
  | call (c : Call) (w : World) : Step w (c.exec.run w).2
  | initCom (i : InitCom) (w : World)
      (h : w.link.connected = false ∨ (i.exec.run w).1 = .ok 0) : Step w (i.exec.run w).2
  | device (h : w'.link = w.link) : Step w w'
  | phy (w : World) (ptd : List Byte) : Step w { w with link := { w.link with ptd } }

inductive Reachable : World → Prop
  | start (h : w.link.log = []) : Reachable w
  | step (h : Reachable w) (hs : Step w w') : Reachable w'

def PbDevState.Session (l : PbDevState) : Prop :=
  l.connected = false ∧ l.log = [] ∨ ∃ ms, PbDevState.Continues ⟨true, [], []⟩ ms l

/-- A link is not used once it is closed, and left at most once. -/
structure PbDevState.Unused (l : PbDevState) : Prop where
  nothing_after : ∀ before after, l.log = before ++ .closed :: after → after = []
  closed_iff : .closed ∈ l.log ↔ l.connected = false ∧ l.log ≠ []
  leaves_once : l.log.countP Event.leaves ≤ 1

theorem Quiet.closed_not_mem (h : Quiet es) : .closed ∉ es := fun hm => (h _ hm).1 rfl

theorem Quiet.countP_leaves (h : Quiet es) : es.countP Event.leaves = 0 :=
  List.countP_eq_zero.mpr fun e he => by simp [(h e he).2]

/-- A session ends with its closing, and at most one leave before it. -/
theorem Closing.eq (h : Closing es) :
    ∃ es', es = es' ++ [.closed] ∧ .closed ∉ es' ∧ es'.countP Event.leaves ≤ 1 := by
  cases h with
  | @silent es hq => exact ⟨es, rfl, hq.closed_not_mem, by simp [hq.countP_leaves]⟩
  | @leave es e hq he =>
    refine ⟨es ++ [e], by simp, ?_, ?_⟩
    · have hne : .closed ≠ e := by
        rintro rfl
        simp [Event.leaves] at he
      simp [hq.closed_not_mem, hne]
    · rw [List.countP_append, hq.countP_leaves]
      simp [he]

theorem PbDevState.Session.unused {l : PbDevState} (h : l.Session) : l.Unused := by
  rcases h with ⟨hc, hl⟩ | ⟨ms, es, hl, -, ⟨hc, hq⟩ | ⟨hc, hclosing⟩⟩
  · exact ⟨fun before after he => by simp [hl] at he, by simp [hl], by simp [hl]⟩
  · replace hl : l.log = es := hl
    refine ⟨fun before after he => ?_, ?_, ?_⟩
    · exact absurd (hl ▸ he ▸ by simp) hq.closed_not_mem
    · simp [hl, hc, hq.closed_not_mem]
    · simp [hl, hq.countP_leaves]
  · obtain ⟨es', rfl, hnot, hone⟩ := hclosing.eq
    replace hl : l.log = es' ++ [.closed] := hl
    refine ⟨fun before after he => ?_, ?_, ?_⟩
    · rw [hl] at he
      rcases List.append_eq_append_iff.mp he with ⟨a, hb, ha⟩ | ⟨a, hb, ha⟩
      · cases a with
        | nil => simpa using ha.symm
        | cons b bs => simp at ha
      · cases a with
        | nil => simpa using ha
        | cons b bs =>
          obtain ⟨rfl, -⟩ := List.cons.inj ha
          exact absurd (hb ▸ by simp) hnot
    · simp [hl, hc]
    · rw [hl, List.countP_append]
      simpa [Event.leaves] using hone

theorem PbDevState.Session.call {w : World} (h : w.link.Session) (c : Call) :
    (c.exec.run w).2.link.Session := by
  cases hc : w.link.connected with
  | false =>
    rw [run_call_closed hc c]
    exact h
  | true =>
    rcases h with ⟨hf, -⟩ | ⟨ms, h⟩
    · exact absurd hc (by simp [hf])
    · exact .inr ⟨_, h.trans hc (continues_call hc c)⟩

theorem Reachable.session {w : World} (h : Reachable w) : w.link.Session := by
  induction h with
  | @start w h =>
    cases hc : w.link.connected with
    | false => exact .inl ⟨hc, h⟩
    | true => exact .inr ⟨[], [], h, rfl, .inl ⟨hc, quiet_nil⟩⟩
  | step h hs ih =>
    cases hs with
    | call c => exact ih.call c
    | device he => rwa [he]
    | phy ptd => exact ih
    | initCom i w hopen =>
      obtain ⟨ret, hret, hend⟩ := run_initCom i hopen
      rcases hend with ⟨-, hl⟩ | ⟨-, hl⟩
      · rw [hl]
        exact .inr ⟨[], .refl rfl⟩
      · rw [hl]
        exact ih

/-- From the moment its link is closed to the next opening of a session the
library neither writes nor reads, and every call returns at once. -/
theorem closed_link_unused {w : World} (h : Reachable w) :
    w.link.Unused ∧
      (w.link.connected = false → ∀ c : Call, c.exec.run w = (.ok c.closedRet, w)) :=
  ⟨h.session.unused, fun hc c => run_call_closed hc c⟩

end PhyCom2G4

namespace PhyCom2G4

open Bytes

attribute [local instance] LibPhyCom.posix

theorem closed_link_unused_cut :
    let c := Call.cb (.transaction (.rx (parse []) 0 0 0 none))
    let w := (c.exec.run (World.start [1])).2
    w.link.Unused ∧
      (w.link.connected = false → ∀ c : Call, c.exec.run w = (.ok c.closedRet, w)) :=
  closed_link_unused (.step (.start rfl) (.call _ _))

end PhyCom2G4
