import Mathlib.Data.Nat.Notation
import Mathlib.Tactic.SplitIfs
import TorrentFs.Lib.Run

/-!
# The alert consumer

Its thread takes the alerts of the session until there are none, and then sleeps for a second unless
the callback of a new alert or `stop` wakes it. Both notify it without the mutex. The queue of the
session is bounded and drops what it does not take; which alerts it takes is a parameter.
-/

namespace TorrentFs.Download

variable {α : Type*}

/-- Where the thread is: at the top of its loop, in `wait` before and after its look at the flag,
asleep, awake again, or behind the loop. -/
inductive ConsumerPhase
  | draining
  | waiting
  | blocking
  | asleep
  | woken
  | exited
deriving DecidableEq

/-- The thread, the flag and the queue of the session, with the alerts that the queue took and those
that were dispatched. -/
structure AlertConsumer (α : Type*) where
  phase : ConsumerPhase
  flag : Bool
  stopFlag : Bool
  queue : List α
  posted : List α
  dispatched : List α
  /-- The calls of `notify_cb` that have not set the flag yet. -/
  called : ℕ
  /-- The notifications that are still to come. -/
  notifying : ℕ
  /-- In this wait a notification came too early for the sleep, and too late for the look at the
  flag or from `stop`, which sets no flag. -/
  missed : Bool
deriving DecidableEq

/-- What can happen: an alert of the session, the two halves of `notify_cb`, `stop`, and the steps
of the thread. -/
inductive AlertAction (α : Type*)
  | post (alert : α)
  | store
  | stop
  | notify
  /-- The timeout, or a wake-up without a cause. -/
  | wake
  | run

namespace AlertConsumer

/-- `AlertConsumer::spawn`. -/
def new : AlertConsumer α := ⟨.draining, false, false, [], [], [], 0, 0, false⟩

/-- The next step of the thread. -/
def run (s : AlertConsumer α) : Option (AlertConsumer α) :=
  match s.phase with
  | .draining =>
    if s.stopFlag then some { s with phase := .exited }
    else if s.queue = [] then some { s with phase := .waiting, missed := false }
    else some { s with queue := [], dispatched := s.dispatched ++ s.queue }
  | .waiting => some { s with phase := if s.flag then .draining else .blocking, flag := false }
  | .blocking => some { s with phase := .asleep }
  | .woken => some { s with phase := .draining, flag := false }
  | .asleep | .exited => none

/-- The session calls `notify_cb` for an alert that finds the queue empty. An alert that the queue
does not take (`admits`) is dropped. -/
def step (admits : List α → α → Bool) (s : AlertConsumer α) :
    AlertAction α → Option (AlertConsumer α)
  | .post alert => some (if admits s.queue alert then { s with
      queue := s.queue ++ [alert], posted := s.posted ++ [alert]
      called := if s.queue = [] then s.called + 1 else s.called } else s)
  | .store =>
    if 0 < s.called then
      some { s with called := s.called - 1, notifying := s.notifying + 1, flag := true }
    else none
  | .stop => some { s with stopFlag := true, notifying := s.notifying + 1 }
  | .notify =>
    if 0 < s.notifying then some { s with
      notifying := s.notifying - 1, phase := if s.phase = .asleep then .woken else s.phase
      missed := s.missed || s.phase = .blocking || s.phase = .waiting && s.stopFlag }
    else none
  | .wake => if s.phase = .asleep then some { s with phase := .woken } else none
  | .run => s.run

/-- The alerts are in order, and a thread that goes to sleep on an alert or a stop has a call or a
notification on its way, or has missed one. -/
structure Sound (s : AlertConsumer α) : Prop where
  order : s.posted = s.dispatched ++ s.queue
  looks : s.phase = .waiting → s.queue ≠ [] → 0 < s.called ∨ s.flag = true
  sleeps : s.phase = .waiting ∧ s.stopFlag = true ∨ (s.phase = .blocking ∨ s.phase = .asleep) ∧
    (s.queue ≠ [] ∨ s.stopFlag = true) → 0 < s.called ∨ 0 < s.notifying ∨ s.missed = true

variable {s t : AlertConsumer α}

lemma Sound.post (h : s.Sound) (alert : α) : ({ s with
    queue := s.queue ++ [alert], posted := s.posted ++ [alert]
    called := if s.queue = [] then s.called + 1 else s.called } : AlertConsumer α).Sound := by
  by_cases hqueue : s.queue = []
  · -- the callback of the first alert is on its way
    have hcalled : 0 < (if s.queue = [] then s.called + 1 else s.called) := by simp [hqueue]
    exact ⟨by simp [h.order], fun _ _ => .inl hcalled, fun _ => .inl hcalled⟩
  · simp only [if_neg hqueue]
    refine ⟨by simp [h.order], fun hphase _ => h.looks hphase hqueue, fun hleft => h.sleeps ?_⟩
    exact hleft.imp_right fun hsleep => ⟨hsleep.1, .inl hqueue⟩

/-- A notification that finds the thread in the gap is recorded as missed. -/
lemma Sound.notify (h : s.Sound) (notifying : ℕ) : ({ s with
    notifying, phase := if s.phase = .asleep then .woken else s.phase
    missed := s.missed || s.phase = .blocking || s.phase = .waiting && s.stopFlag } :
      AlertConsumer α).Sound := by
  by_cases hasleep : s.phase = .asleep
  · simp only [if_pos hasleep]
    exact ⟨h.order, nofun, fun hleft => by simp at hleft⟩
  · simp only [if_neg hasleep]
    refine ⟨h.order, h.looks, fun hleft => .inr (.inr ?_)⟩
    rcases hleft with ⟨hwaiting, hstop⟩ | ⟨hblocking | hsleep, -⟩
    · simp [show s.phase = .waiting from hwaiting, show s.stopFlag = true from hstop]
    · simp [show s.phase = .blocking from hblocking]
    · exact absurd hsleep hasleep

lemma Sound.run (h : s.Sound) (hstep : s.run = some t) : t.Sound := by
  unfold AlertConsumer.run at hstep
  split at hstep
  · -- the thread goes to sleep only with an empty queue and no stop
    split_ifs at hstep with hstop hqueue <;> cases hstep
    · exact ⟨h.order, nofun, fun hleft => by simp at hleft⟩
    · exact ⟨h.order, fun _ hne => absurd hqueue hne, fun hleft => by simp [hstop] at hleft⟩
    · next hphase =>
      exact ⟨by simp [h.order], fun hw => by simp [hphase] at hw, fun hl => by simp [hphase] at hl⟩
  · next hphase =>
    cases hstep
    cases hflag : s.flag with
    | true => exact ⟨h.order, by simp, by simp⟩
    | false =>
      refine ⟨h.order, by simp, fun hleft => ?_⟩
      have hleft : s.queue ≠ [] ∨ s.stopFlag = true := by simpa using hleft
      rcases hleft with hqueue | hstop
      · exact .inl ((h.looks hphase hqueue).resolve_right (by simp [hflag]))
      · exact h.sleeps (.inl ⟨hphase, hstop⟩)
  · next hphase =>
    cases hstep
    exact ⟨h.order, nofun, fun hleft => h.sleeps (.inr ⟨.inl hphase, by simpa using hleft⟩)⟩
  · cases hstep
    exact ⟨h.order, nofun, fun hleft => by simp at hleft⟩
  · cases hstep
  · cases hstep

lemma Sound.step {admits : List α → α → Bool} {a : AlertAction α} (h : s.Sound)
    (hstep : s.step admits a = some t) : t.Sound := by
  cases a with
  | post alert =>
    cases hstep
    split
    · exact h.post alert
    · exact h
  | store =>
    obtain ⟨-, heq⟩ := Option.ite_none_right_eq_some.mp hstep
    cases heq
    exact ⟨h.order, fun _ _ => .inr rfl, fun _ => .inr (.inl (Nat.succ_pos _))⟩
  | stop =>
    cases hstep
    exact ⟨h.order, h.looks, fun _ => .inr (.inl (Nat.succ_pos _))⟩
  | notify =>
    obtain ⟨-, heq⟩ := Option.ite_none_right_eq_some.mp hstep
    cases heq
    exact h.notify _
  | wake =>
    obtain ⟨-, heq⟩ := Option.ite_none_right_eq_some.mp hstep
    cases heq
    exact ⟨h.order, nofun, fun hleft => by simp at hleft⟩
  | run => exact h.run hstep

end AlertConsumer

end TorrentFs.Download
