import LotusKit.Schedule.Clock

/-! Frame advance holds the game by a request of DebugPause of its own. The count of
requests is shared with everyone else, so its own part is told apart here: what it
requested, minus what it released. -/

namespace LotusKit.Schedule
open LotusKit.Lib.Transition

/-- The binds of frame advance. -/
def Bind.isFrameAdvance : Bind → Bool
  | .beginFrameAdvance => true
  | .stepFrameAdvance _ => true
  | .endFrameAdvance => true
  | _ => false

namespace Sched
variable (s : Sched)

/-- What frame advance requests, minus what it releases, in one step. -/
def ownRequests (s : Sched) (a : Action) : Int :=
  match a, s.control with
  | .tick, .ctxEnter _ => s.tick.debugPauses - s.debugPauses
  | .tick, .run =>
    match s.nextBind with
    | some bind => if bind.isFrameAdvance then s.tick.debugPauses - s.debugPauses else 0
    | none => 0
  | _, _ => 0

/-- The frame time accounting comes to the branch that lets the game run for the frames to
step. -/
structure ReleasesInFrame : Prop where
  valid : s.isValidForExecution = true
  unblocked : s.isBlockedFromScheduling.1 = false
  isFrameAdvance : s.isFrameAdvance = true
  isPause : s.isPauseRequest DebugPause = true
  stepping : 0 < s.bypassDebugPause60
  blockOnDebugPause : (s.moduleStack s.chargedSlot).state.blockOnDebugPause = true

/-- Frame advance releases DebugPause in this step: it ends, or it steps. -/
def ReleasesDebugPause (s : Sched) (a : Action) : Prop :=
  match a with
  | .tick => s.nextBind = some .endFrameAdvance ∨
      ∃ deltaFrame60, s.control = .ctxEnter deltaFrame60 ∧ s.ReleasesInFrame
  | _ => False

theorem isPauseRequest_debugPause : s.isPauseRequest DebugPause = true ↔ 0 < s.debugPauses := by
  simp only [isPauseRequest, debugPauses, decide_eq_true_eq]

@[simp] theorem debugPauses_requestPause :
    (s.requestPause DebugPause).debugPauses = s.debugPauses + 1 := by
  simp [requestPause, debugPauses]

@[simp] theorem debugPauses_releasePause :
    (s.releasePause DebugPause).debugPauses = s.debugPauses - 1 := by
  simp [releasePause, debugPauses]

/-- Frame advance requests only where nobody does. -/
theorem calcFrameAdvance_debugPauses (slot deltaFrame60 : Nat) :
    let t := (s.calcFrameAdvance slot deltaFrame60).1
    t.isFrameAdvance = s.isFrameAdvance ∧
      ((s.isPauseRequest DebugPause = true ∧ 0 < s.bypassDebugPause60 ∧
          (s.moduleStack slot).state.blockOnDebugPause = true ∧ t.debugPauses = s.debugPauses - 1) ∨
        (¬(s.isPauseRequest DebugPause = true ∧ 0 < s.bypassDebugPause60 ∧
            (s.moduleStack slot).state.blockOnDebugPause = true) ∧
          (t.debugPauses = s.debugPauses ∨
            (s.isPauseRequest DebugPause = false ∧ t.debugPauses = s.debugPauses + 1)))) := by
  cases paused : s.isPauseRequest DebugPause with
  | false =>
    by_cases still : s.bypassDebugPause60 = 0
    · simp [calcFrameAdvance, paused, still, requestPause, debugPauses]
    · cases blocks : (s.moduleStack slot).state.blockOnDebugPause with
      | false => simp [calcFrameAdvance, paused, still, blocks]
      | true =>
        by_cases done : s.bypassDebugPause60 - min s.bypassDebugPause60 deltaFrame60 = 0
        · simp [calcFrameAdvance, paused, still, blocks, done, requestPause, debugPauses]
        · simp [calcFrameAdvance, paused, still, blocks, done, debugPauses]
  | true =>
    by_cases still : s.bypassDebugPause60 = 0
    · simp [calcFrameAdvance, paused, still]
    · have stepping : 0 < s.bypassDebugPause60 := Nat.pos_of_ne_zero still
      cases blocks : (s.moduleStack slot).state.blockOnDebugPause with
      | false => simp [calcFrameAdvance, paused, still, blocks]
      | true => simp [calcFrameAdvance, paused, still, blocks, stepping, releasePause, debugPauses]

theorem deductFrametime_shares (slot deltaFrame60 : Nat) (isPauseAwareInputFrame : Bool) :
    (s.deductFrametime slot deltaFrame60 isPauseAwareInputFrame).isFrameAdvance = s.isFrameAdvance ∧
      (s.deductFrametime slot deltaFrame60 isPauseAwareInputFrame).debugPauses = s.debugPauses := by
  cases isPauseAwareInputFrame <;> exact ⟨rfl, rfl⟩

theorem calcConsumeFrametime_shares (deltaFrame60 : Nat) :
    let t := (s.calcConsumeFrametime_queryIsInputExhausted deltaFrame60).2
    let u := if s.isFrameAdvance then (s.calcFrameAdvance s.chargedSlot deltaFrame60).1 else s
    t.isFrameAdvance = u.isFrameAdvance ∧ t.debugPauses = u.debugPauses := by
  cases advancing : s.isFrameAdvance with
  | false =>
    simp only [calcConsumeFrametime_queryIsInputExhausted, advancing, Bool.false_eq_true, if_false,
      if_true]
    have deducted := s.deductFrametime_shares s.chargedSlot deltaFrame60 false
    exact ⟨deducted.1.trans advancing, deducted.2⟩
  | true =>
    simp only [calcConsumeFrametime_queryIsInputExhausted, advancing, if_true]
    split
    · exact deductFrametime_shares _ _ _ _
    · exact ⟨rfl, rfl⟩

/-- What a tick means for frame advance: it releases, it requests, or neither. -/
inductive Advances (s t : Sched) : Prop
  | releases : s.ReleasesDebugPause .tick → s.ownRequests .tick = -1 → Advances s t
  | requests : ¬s.ReleasesDebugPause .tick → s.ownRequests .tick = 1 → s.debugPauses ≤ 0 →
      t.isFrameAdvance = true → Advances s t
  | neither : ¬s.ReleasesDebugPause .tick → s.ownRequests .tick = 0 →
      (t.isFrameAdvance = false → s.isFrameAdvance = false) → Advances s t

variable {s}

theorem advances_ctxEnter {deltaFrame60 : Nat} (stands : s.control = .ctxEnter deltaFrame60) :
    Advances s s.tick := by
  have ticked : s.tick = s.calcCtxEnter deltaFrame60 := by simp only [tick, stands]
  have noBind : s.nextBind = none := by simp only [nextBind, stands]
  have releases : s.ReleasesDebugPause .tick ↔ s.ReleasesInFrame := by
    simp [ReleasesDebugPause, noBind, stands]
  have own : s.ownRequests .tick = s.tick.debugPauses - s.debugPauses := by
    simp only [ownRequests, stands]
  have clock := s.clock_calcCtxEnter deltaFrame60
  rw [← ticked] at clock
  have advance : s.tick.isFrameAdvance = (s.accounted deltaFrame60).isFrameAdvance :=
    congrArg (fun c => c.1) clock
  have pauses : s.tick.debugPauses = (s.accounted deltaFrame60).debugPauses :=
    congrArg (fun c => c.2.1) clock
  -- nothing is accounted for
  have kept (none_ : ¬s.ReleasesInFrame) (same : (s.accounted deltaFrame60).clock = s.clock) :
      Advances s s.tick := by
    have advance' : (s.accounted deltaFrame60).isFrameAdvance = s.isFrameAdvance :=
      congrArg (fun c => c.1) same
    have pauses' : (s.accounted deltaFrame60).debugPauses = s.debugPauses :=
      congrArg (fun c => c.2.1) same
    exact .neither (mt releases.mp none_) (by rw [own, pauses, pauses', Int.sub_self])
      fun off => advance'.symm.trans (advance.symm.trans off)
  cases valid : s.isValidForExecution with
  | false =>
    apply kept (fun released => absurd (released.valid.symm.trans valid) (by decide))
    rw [accounted, if_pos valid]
  | true =>
    cases blocked : s.isBlockedFromScheduling.1 with
    | true =>
      apply kept (fun released => absurd (released.unblocked.symm.trans blocked) (by decide))
      rw [accounted, if_neg (by simp [valid]), if_pos blocked]
      exact s.onlyAwaits_isBlockedFromScheduling.clock
    | false =>
      have awaits := s.onlyAwaits_isBlockedFromScheduling
      generalize is : s.isBlockedFromScheduling.2 = u at awaits
      have reached : s.accounted deltaFrame60 =
          (u.calcConsumeFrametime_queryIsInputExhausted deltaFrame60).2 := by
        rw [accounted, if_neg (by simp [valid]), if_neg (by simp [blocked]), is]
      have consumed := u.calcConsumeFrametime_shares deltaFrame60
      have uAdvance : u.isFrameAdvance = s.isFrameAdvance := congrArg (fun c => c.1) awaits.clock
      have uPauses : u.debugPauses = s.debugPauses := congrArg (fun c => c.2.1) awaits.clock
      have uPaused : u.isPauseRequest DebugPause = s.isPauseRequest DebugPause := by
        rw [Bool.eq_iff_iff, isPauseRequest_debugPause, isPauseRequest_debugPause, uPauses]
      rw [← reached] at consumed
      cases advancing : s.isFrameAdvance with
      | false =>
        simp only [uAdvance, advancing, Bool.false_eq_true, if_false] at consumed
        apply Advances.neither
        · exact fun released => absurd ((releases.mp released).isFrameAdvance.symm.trans advancing)
            (by decide)
        · rw [own, pauses, consumed.2, uPauses, Int.sub_self]
        · exact fun _ => advancing
      | true =>
        simp only [uAdvance, advancing, if_true] at consumed
        obtain ⟨on, changed⟩ := u.calcFrameAdvance_debugPauses u.chargedSlot deltaFrame60
        rw [uPaused, awaits.bypassDebugPause60, awaits.chargedSlot, awaits.blockOnDebugPause,
          uPauses] at changed
        rw [awaits.chargedSlot] at consumed on
        have tickOn : s.tick.isFrameAdvance = true := by
          rw [advance, consumed.1, on, uAdvance, advancing]
        rcases changed with ⟨isPause, stepping, blocks, less⟩ | ⟨not, same | ⟨free, more⟩⟩
        · apply Advances.releases
          · exact releases.mpr ⟨valid, blocked, advancing, isPause, stepping, blocks⟩
          · rw [own, pauses, consumed.2, less]
            omega
        · apply Advances.neither
          · exact fun released => not ⟨(releases.mp released).isPause, (releases.mp released).stepping,
              (releases.mp released).blockOnDebugPause⟩
          · rw [own, pauses, consumed.2, same, Int.sub_self]
          · exact fun off => absurd (tickOn.symm.trans off) (by decide)
        · apply Advances.requests
          · exact fun released => not ⟨(releases.mp released).isPause, (releases.mp released).stepping,
              (releases.mp released).blockOnDebugPause⟩
          · rw [own, pauses, consumed.2, more]
            omega
          · have unpaused := mt s.isPauseRequest_debugPause.mpr (by simp [free])
            omega
          · exact tickOn

/-- A tick that runs no bind of frame advance and is not at `CTX_ENTER`. -/
theorem advances_other (noBind : ∀ bind, s.nextBind = some bind → bind.isFrameAdvance = false)
    (elsewhere : ∀ deltaFrame60, s.control ≠ .ctxEnter deltaFrame60)
    (same : s.tick.isFrameAdvance = s.isFrameAdvance) : Advances s s.tick := by
  apply Advances.neither
  · rintro (ends | ⟨deltaFrame60, stands, -⟩)
    · exact absurd (noBind _ ends) (by decide)
    · exact elsewhere deltaFrame60 stands
  · unfold ownRequests
    split
    next stands => exact absurd stands (elsewhere _)
    next =>
      split
      next bind found => rw [noBind bind found, if_neg Bool.false_ne_true]
      next => rfl
    next => rfl
  · exact fun off => same.symm.trans off

theorem callBind_isFrameAdvance (s : Sched) {bind : Bind} (other : bind.isFrameAdvance = false) :
    (s.callBind bind).isFrameAdvance = s.isFrameAdvance := by
  cases bind with
  | input duration b l r => exact s.isFrameAdvance_setCurrentInput duration b l r
  | inputOr duration b l r => exact s.isFrameAdvance_setCurrentInput duration b l r
  | inputXor duration b l r => exact s.isFrameAdvance_setCurrentInput duration b l r
  | sleep duration => exact s.isFrameAdvance_setCurrentInput duration _ _ _
  | beginFrameAdvance => exact absurd other (by decide)
  | stepFrameAdvance duration => exact absurd other (by simp [Bind.isFrameAdvance])
  | endFrameAdvance => exact absurd other (by decide)
  | _ => rfl

theorem beginFrameAdvance_shares (s : Sched) :
    s.beginFrameAdvance.isFrameAdvance = true ∧
      (s.beginFrameAdvance.debugPauses = s.debugPauses ∨
        (s.debugPauses ≤ 0 ∧ s.beginFrameAdvance.debugPauses = s.debugPauses + 1)) := by
  have turnedOn : ∃ u, u = (if s.isFrameAdvance then s
      else { s with isFrameAdvance := true, bypassDebugPause60 := 0 }) ∧
      u.isFrameAdvance = true ∧ u.debugPauses = s.debugPauses := by
    refine ⟨_, rfl, ?_⟩
    split
    next on => exact ⟨on, rfl⟩
    next => exact ⟨rfl, rfl⟩
  obtain ⟨u, is, on, pauses⟩ := turnedOn
  simp only [beginFrameAdvance, ← is]
  split
  next => exact ⟨on, .inl pauses⟩
  next free =>
    have unpaused := mt u.isPauseRequest_debugPause.mpr free
    rw [pauses] at unpaused
    refine ⟨on, .inr ⟨by omega, ?_⟩⟩
    rw [debugPauses_requestPause, pauses]

/-- The binds of frame advance: only ending releases. -/
theorem callBind_frameAdvance (s : Sched) {bind : Bind} (own : bind.isFrameAdvance = true) :
    (bind = .endFrameAdvance ∧ (s.callBind bind).debugPauses = s.debugPauses - 1) ∨
      (bind ≠ .endFrameAdvance ∧ (s.callBind bind).isFrameAdvance = true ∧
        ((s.callBind bind).debugPauses = s.debugPauses ∨
          (s.debugPauses ≤ 0 ∧ (s.callBind bind).debugPauses = s.debugPauses + 1))) := by
  cases bind with
  | beginFrameAdvance => exact .inr ⟨nofun, s.beginFrameAdvance_shares⟩
  | stepFrameAdvance duration =>
    refine .inr ⟨nofun, ?_⟩
    show (if s.isFrameAdvance then s else s.beginFrameAdvance).isFrameAdvance = true ∧ _
    by_cases on : s.isFrameAdvance = true
    · exact ⟨by rw [if_pos on, on], .inl (by simp [callBind, stepFrameAdvance, on, debugPauses])⟩
    · have begun := s.beginFrameAdvance_shares
      rw [if_neg on]
      simpa [callBind, stepFrameAdvance, on, debugPauses] using begun
  | endFrameAdvance => exact .inl ⟨rfl, s.debugPauses_releasePause⟩
  | _ => cases own

theorem advances_tick (s : Sched) : Advances s s.tick := by
  cases s.tickClock with
  | enters deltaFrame60 stands _ _ => exact advances_ctxEnter stands
  | other noBind elsewhere same =>
    apply advances_other
    · simp [noBind]
    · exact elsewhere
    · exact congrArg (fun c => c.1) same
  | calls sp bind rest stands next called =>
    cases own : bind.isFrameAdvance with
    | false =>
      apply advances_other
      · intro called found
        rwa [← Option.some.inj (next.symm.trans found)]
      · simp [stands]
      · rw [called, callBind_isFrameAdvance _ own]
        rfl
    | true =>
      have ownRequests : s.ownRequests .tick = s.tick.debugPauses - s.debugPauses := by
        simp [Sched.ownRequests, stands, next, own]
      have releases : s.ReleasesDebugPause .tick ↔ bind = .endFrameAdvance := by
        simp [ReleasesDebugPause, next, stands]
      have before : (s.setProgram sp rest).debugPauses = s.debugPauses := rfl
      rcases (s.setProgram sp rest).callBind_frameAdvance own with
        ⟨ends, less⟩ | ⟨other, on, same | ⟨free, more⟩⟩
      · apply Advances.releases (releases.mpr ends)
        rw [ownRequests, called, less, before]
        omega
      · apply Advances.neither (mt releases.mp other)
        · rw [ownRequests, called, same, before, Int.sub_self]
        · rw [called, on]
          exact fun off => absurd off (by decide)
      · apply Advances.requests (mt releases.mp other)
        · rw [ownRequests, called, more, before]
          omega
        · exact free
        · rw [called, on]

end Sched

/-- The scheduler, with frame advance's own part of the requests of DebugPause. -/
structure Shares where
  sched : Sched
  own : Int

/-- The requests that others hold. -/
def Shares.others (w : Shares) : Int := w.sched.debugPauses - w.own

/-- A step of the scheduler. The others, scripts among them, release only what they
requested, so their part is never negative. -/
inductive Shares.Step : Shares → Action → Shares → Prop
  | step {s t : Sched} {own : Int} {a : Action} : Schedule.Step s a t →
      0 ≤ Shares.others ⟨t, own + s.ownRequests a⟩ →
      Shares.Step ⟨s, own⟩ a ⟨t, own + s.ownRequests a⟩

def advancing : System Shares Action where
  Start w := w = ⟨.init, 0⟩
  Step := Shares.Step

namespace Shares
variable {w x : Shares}

/-- Frame advance holds one request at most, none while it is off, and the count is never
negative. -/
structure Balanced (w : Shares) : Prop where
  atMostOne : w.own = 0 ∨ w.own = 1
  off : w.sched.isFrameAdvance = false → w.own = 0
  count : 0 ≤ w.sched.debugPauses

/-- Frame advance releases a request it does not hold. -/
def ReleasesOthers (w : Shares) (a : Action) : Prop := w.own = 0 ∧ w.sched.ReleasesDebugPause a

theorem balanced_step {a : Action} (balanced : w.Balanced) (others : 0 ≤ w.others)
    (fine : ¬w.ReleasesOthers a) (taken : Step w a x) : x.Balanced ∧ 0 ≤ x.others := by
  obtain ⟨taken, guard⟩ := taken
  rename_i s t own
  have quiet (none_ : s.ownRequests a = 0) (same : t.isFrameAdvance = s.isFrameAdvance) :
      Balanced ⟨t, own + s.ownRequests a⟩ := by
    have atMostOne := balanced.atMostOne
    rw [none_, Int.add_zero] at guard ⊢
    simp only [Shares.others] at guard
    exact ⟨atMostOne, fun off => balanced.off (same.symm.trans off),
      show 0 ≤ t.debugPauses by simp only at atMostOne; omega⟩
  refine ⟨?_, guard⟩
  cases taken with
  | push source answers program _ =>
    exact quiet rfl (congrArg (fun c => c.1) (s.pushed_pushFrom answers program source).clock.1)
  | frame deltaFrame60 _ =>
    exact quiet rfl (congrArg (fun c => c.1) (s.clock_playbackCalc deltaFrame60))
  | pauses counts targets _ => exact quiet rfl rfl
  | tick _ _ =>
    have atMostOne := balanced.atMostOne
    have offBefore := balanced.off
    simp only [Shares.others] at guard others
    simp only at atMostOne offBefore
    cases s.advances_tick with
    | releases released own_ =>
      have held : own = 1 := atMostOne.resolve_left fun none_ => fine ⟨none_, released⟩
      rw [own_, held] at guard ⊢
      exact ⟨.inl rfl, fun _ => rfl, show 0 ≤ s.tick.debugPauses by omega⟩
    | requests _ own_ free on =>
      have none_ : own = 0 := by omega
      rw [own_, none_] at guard ⊢
      exact ⟨.inr rfl, fun off => absurd (on.symm.trans off) (by decide),
        show 0 ≤ s.tick.debugPauses by omega⟩
    | neither _ own_ off =>
      rw [own_, Int.add_zero] at guard ⊢
      exact ⟨atMostOne, fun now => offBefore (off now), show 0 ≤ s.tick.debugPauses by omega⟩

theorem not_balanced_step {a : Action} (wrong : w.ReleasesOthers a) (taken : Step w a x) :
    ¬x.Balanced := by
  intro balanced
  obtain ⟨taken, guard⟩ := taken
  rename_i s t own
  obtain ⟨none_, released⟩ := wrong
  have atMostOne := balanced.atMostOne
  simp only at none_ atMostOne released
  cases a with
  | tick =>
    cases s.advances_tick with
    | releases _ own_ => omega
    | requests not_ _ _ _ => exact not_ released
    | neither not_ _ _ => exact not_ released
  | push _ _ _ => exact released
  | frame _ => exact released
  | pauses _ _ => exact released

theorem balanced_reachable
    (reached : advancing.ReachableUnder (fun w a => ¬w.ReleasesOthers a) w) :
    w.Balanced ∧ 0 ≤ w.others := by
  have atStart (w : Shares) (start : advancing.Start w) : w.Balanced ∧ 0 ≤ w.others := by
    obtain rfl : w = ⟨.init, 0⟩ := start
    exact ⟨⟨.inl rfl, fun _ => rfl, by decide⟩, by decide⟩
  exact System.ReachableUnder.invariant atStart
    (fun _ _ _ held fine taken => balanced_step held.1 held.2 fine taken) reached

/-- Frame advance is balanced all along a run exactly when it never releases DebugPause
without holding a request. -/
theorem balanced_iff (run : advancing.Run) :
    (∀ i ≤ run.length, (run.state i).Balanced) ↔
      ∀ i < run.length, ¬(run.state i).ReleasesOthers (run.action i) := by
  have enough (w : Shares)
      (reached : advancing.ReachableUnder (fun w a => ¬w.ReleasesOthers a) w) : w.Balanced :=
    (balanced_reachable reached).1
  refine run.holds_iff enough fun w a x reached wrong taken => ?_
  exact not_balanced_step (not_not.mp wrong) taken

def perform (a : Action) (w : Shares) : Shares := ⟨w.sched.perform a, w.own + w.sched.ownRequests a⟩

def enabled (a : Action) (w : Shares) : Bool := w.sched.enabled a && decide (0 ≤ (w.perform a).others)

theorem step_perform (a : Action) (w : Shares) (can : w.enabled a = true) :
    Step w a (w.perform a) := by
  obtain ⟨can, guard⟩ := Bool.and_eq_true_iff.mp can
  exact .step (Schedule.step_perform a w.sched can) (of_decide_eq_true guard)

/-- A hotkey ends a frame advance that nobody began. -/
def endsWithoutBegin : List Action :=
  [.push (.hotkeyEval 7) ⟨true, false, true, true⟩ (.call .endFrameAdvance .done),
   .frame 2, .tick, .tick, .tick]

/-- The count of requests drops below zero. -/
theorem endsWithoutBegin_not_balanced :
    ∃ run : advancing.Run, ¬∀ i ≤ run.length, (run.state i).Balanced := by
  refine ⟨.replay endsWithoutBegin ⟨.init, 0⟩ rfl step_perform (by decide +kernel), fun balanced => ?_⟩
  have last := (balanced 5 (by decide +kernel)).atMostOne
  exact absurd last (by decide +kernel)

end Shares

end LotusKit.Schedule
