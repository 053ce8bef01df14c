import LotusKit.Schedule.Burst
import LotusKit.Schedule.Recovery

/-! Nested scripts play as their in-order flattening. Frame by frame the scheduler follows
the stack machine of `ScriptTree.frame`; it shows the flattening, aborts exactly when a nested
script ends before it ever waited, and discards a module twice exactly when a script calls its
own file or text and nobody below it has that too. -/

namespace LotusKit.Schedule
open LotusKit.Lib.Transition

namespace Sched
variable {s t u : Sched} {root : Setup} {k : Nat}

/-- What the ends of a turn mean for the scheduler. -/
def TurnLeads (root : Setup) (s : Sched) : ScriptTree.Turn → Prop
  | .complete events => ∃ u, Leads tick s u ∧ u.control = .idle ∧ u.isAbortReq = false ∧
      (u.moduleStack 0).asModule = none ∧ u.events = s.events ++ events
  | .waiting events stack ttl60 =>
    ∃ u, Leads tick s u ∧ Stopped root u 0 [] stack ttl60 ∧ Kept s u 0 events
  | .aborted => s.Aborts

theorem TurnLeads.after {events : List Event} {turn : ScriptTree.Turn} (leads : Leads tick s t)
    (kept : Kept s t 0 events) (later : TurnLeads root t turn) :
    TurnLeads root s (turn.after events) := by
  cases turn with
  | complete more =>
    obtain ⟨u, leadsU, idle, calm, empty, eventsU⟩ := later
    refine ⟨u, leads.trans leadsU, idle, calm, empty, ?_⟩
    rw [eventsU, kept.events, List.append_assoc]
  | waiting more stack ttl60 =>
    obtain ⟨u, leadsU, stopped, keptU⟩ := later
    exact ⟨u, leads.trans leadsU, stopped, kept.trans keptU⟩
  | aborted => exact later.of_leads leads

/-- Scripts that wait above others that wait. -/
theorem Stopped.onto {top below : List ScriptTree} {ttl60 : Nat}
    (stopped : Stopped root s below.length [] top ttl60) (nonempty : top ≠ [])
    (stacked : s.Stacked root 0 below 0) : Stopped root s 0 [] (top ++ below) ttl60 := by
  refine ⟨stopped.steady, stopped.control, stopped.running, ?_, ?_, stopped.above⟩
  · have index := stopped.index
    rw [List.length_append]
    omega
  · refine (stacked_append s 0 top below ttl60).mpr ⟨?_, ?_⟩
    · rw [Nat.zero_add]
      exact stopped.stacked
    · rwa [if_neg nonempty]

/-- The scripts below the one that just ended. -/
theorem Popped.entering {t : ScriptTree} {below : List ScriptTree} {v : Sched}
    (popped : Popped v u (below.length + 1) []) (executed : v.Executing root (below.length + 1) [] .done)
    (goes : u.control = .ctxEnter 0 ∧ u.moduleStackIndex = below.length)
    (stacked : v.Stacked root 0 (t :: below) 0) : Entering root u below.length [] t 0 0 := by
  have resting := (popped.stacked (Nat.le_of_eq (Nat.zero_add _)) stacked).1
  rw [Nat.zero_add] at resting
  have inside := executed.inside
  refine ⟨goes.1, popped.running, goes.2, by omega, List.pairwise_singleton _ _,
    popped.steady.1, resting, fun i beyond within => ?_⟩
  by_cases own : i = below.length + 1
  · rw [own]
    exact popped.vacant
  · have vacant := executed.above i (by omega) within
    exact ⟨(popped.asModule i own).trans vacant.1, by rw [popped.asCtx i own]; exact vacant.2⟩

/-- From where the top is executed to the end of the frame, given how it goes `onward` once
the top ended. -/
theorem turn_leads_top (scaling : root.inputFPSMode = .fps30_2X) (below : List ScriptTree)
    (t : ScriptTree) (s u : Sched) (leads : Leads tick s u) (kept : Kept s u 0 [.execute below.length])
    (executing : Executing root u below.length [] t) (stacked : u.Stacked root 0 below 0)
    (whole : s.Whole) (fits : ScriptTree.Fits (t :: below))
    (onward : ∀ events v, Leads tick u v → Executing root v below.length [] .done →
      Kept u v below.length events → ∃ isBlocked blocked,
        (s.isFrameAdvance = false → s.Unpaused → isBlocked = false ∧ ∀ k i, blocked k i = false) ∧
          TurnLeads root s (if below ≠ [] ∧ isBlocked = true then
              .waiting (.execute below.length :: events) below 0
            else (ScriptTree.turn blocked below).after (.execute below.length :: events))) :
    ∃ blocked : Nat → Nat → Bool,
      (s.isFrameAdvance = false → s.Unpaused → ∀ k i, blocked k i = false) ∧
        TurnLeads root s (ScriptTree.turn blocked (t :: below)) := by
  obtain ⟨blockedTop, free, burst⟩ := burst_leads scaling t u below.length [] executing
    (whole.leads leads) fits.1
  have freeTop (calm : s.isFrameAdvance = false) (unpaused : s.Unpaused) :=
    free (kept.pauses.isFrameAdvance.trans calm) (kept.pauses.unpaused calm unpaused)
  -- the top's own answers, and the ones for the scripts below
  have combine (isBlocked : Bool) (blocked : Nat → Nat → Bool)
      (freeBelow : s.isFrameAdvance = false → s.Unpaused →
        isBlocked = false ∧ ∀ k i, blocked k i = false) (calm : s.isFrameAdvance = false)
      (unpaused : s.Unpaused) (k i : Nat) : Function.update blocked below.length
        (Function.update blockedTop (below.length - 1) isBlocked) k i = false := by
    obtain ⟨goes, rest⟩ := freeBelow calm unpaused
    by_cases top : k = below.length
    · rw [top, Function.update_self]
      by_cases parent : i = below.length - 1
      · rw [parent, Function.update_self, goes]
      · rw [Function.update_of_ne parent]
        exact freeTop calm unpaused i
    · rw [Function.update_of_ne top]
      exact rest k i
  cases ends : t.burst blockedTop below.length with
  | finished events =>
    rw [ends] at burst
    obtain ⟨v, leadsV, ended, keptV⟩ := burst
    obtain ⟨isBlocked, blocked, freeBelow, goes⟩ := onward events v leadsV ended keptV
    refine ⟨_, combine isBlocked blocked freeBelow, ?_⟩
    rw [ScriptTree.turn_update, ends]
    exact goes
  | stopped events stack ttl60 =>
    rw [ends] at burst
    obtain ⟨v, leadsV, stopped, keptV⟩ := burst
    have nonempty : stack ≠ [] := by
      have spec := ScriptTree.burst_spec blockedTop t below.length
      rw [ends] at spec
      exact spec.nonempty
    have still : v.Stacked root 0 below 0 :=
      stacked.congr fun i _ less => keptV.below i (by omega)
    refine ⟨_, combine false (fun _ _ => false) fun _ _ => ⟨rfl, fun _ _ => rfl⟩, ?_⟩
    rw [ScriptTree.turn_update, ends]
    exact ⟨v, leads.trans leadsV, stopped.onto nonempty still,
      kept.trans (keptV.weaken (Nat.zero_le _))⟩
  | aborted =>
    rw [ends] at burst
    refine ⟨_, combine false (fun _ _ => false) fun _ _ => ⟨rfl, fun _ _ => rfl⟩, ?_⟩
    rw [ScriptTree.turn_update, ends]
    exact burst.of_leads leads

/-- By induction on the scripts below: each ends, or waits again. -/
theorem turn_leads (scaling : root.inputFPSMode = .fps30_2X) (below : List ScriptTree)
    (t : ScriptTree) (s u : Sched) (leads : Leads tick s u) (kept : Kept s u 0 [.execute below.length])
    (executing : Executing root u below.length [] t) (stacked : u.Stacked root 0 below 0)
    (whole : s.Whole) (fits : ScriptTree.Fits (t :: below)) :
    ∃ blocked : Nat → Nat → Bool,
      (s.isFrameAdvance = false → s.Unpaused → ∀ k i, blocked k i = false) ∧
        TurnLeads root s (ScriptTree.turn blocked (t :: below)) := by
  induction below generalizing t s u with
  | nil =>
    refine turn_leads_top scaling [] t s u leads kept executing stacked whole fits
      fun events v leadsV ended keptV => ?_
    obtain ⟨popped, goes⟩ := ended.pops (whole.leads (leads.trans leadsV))
    refine ⟨false, fun _ _ => false, fun _ _ => ⟨rfl, fun _ _ => rfl⟩, ?_⟩
    rw [if_neg (by simp)]
    refine ⟨_, leads.trans (leadsV.trans v.leads_two_ticks), goes, popped.steady.1,
      popped.vacant.1, ?_⟩
    rw [popped.events, (kept.trans keptV).events]
    simp
  | cons lower below ih =>
    refine turn_leads_top scaling (lower :: below) t s u leads kept executing stacked whole fits
      fun events v leadsV ended keptV => ?_
    have still : v.Stacked root 0 (lower :: below) 0 :=
      stacked.congr fun i _ less => keptV.below i (by omega)
    obtain ⟨popped, goes⟩ := ended.pops (whole.leads (leads.trans leadsV))
    rw [if_neg (by simp)] at goes
    have entering := popped.entering ended goes still
    have onStack := popped.stacked (Nat.le_trans (Nat.le_of_eq (Nat.zero_add _)) (Nat.le_succ _))
      still.2
    have keptPop : Kept v v.tick.tick 0 [] :=
      ⟨nofun, popped.pauses, by rw [popped.events, List.append_nil]⟩
    have keptAll := (kept.trans (keptV.weaken (Nat.zero_le _))).trans keptPop
    have reached := leads.trans (leadsV.trans v.leads_two_ticks)
    rw [List.append_nil] at keptAll
    by_cases isBlocked : v.tick.tick.slotBlocked root below.length = true
    · refine ⟨true, fun _ _ => false, fun calm unpaused => ?_, ?_⟩
      · rw [(keptAll.pauses.unpaused calm unpaused).slotBlocked] at isBlocked
        cases isBlocked
      · obtain ⟨stopped, keptStop⟩ := entering.blocked popped.steady.2 isBlocked
        rw [if_pos ⟨by simp, rfl⟩]
        refine ⟨_, reached.trans (leads_tick _), ?_, ?_⟩
        · exact stopped.onto (by simp) (onStack.congr fun i _ less => keptStop.below i (by omega))
        · simpa only [List.append_nil, List.singleton_append] using
            keptAll.trans (keptStop.weaken (Nat.zero_le _))
    · obtain ⟨spent60, -, -, begun⟩ := entering.unblocked popped.steady.2 (by simpa using isBlocked)
      rw [if_neg (by simp)] at begun
      obtain ⟨begun, keptBegun⟩ := begun
      obtain ⟨blocked, free, later⟩ := ih lower _ _ (leads_tick _) (keptBegun.weaken (Nat.zero_le _))
        begun (onStack.congr fun i _ less => keptBegun.below i (by omega)) (whole.leads reached)
        fits.2
      refine ⟨false, blocked, fun calm unpaused => ⟨rfl, free (keptAll.pauses.isFrameAdvance.trans calm)
        (keptAll.pauses.unpaused calm unpaused)⟩, ?_⟩
      rw [if_neg (by simp)]
      exact later.after reached keptAll

/-- One frame: the pauses then in force and the time that passed. -/
structure Frame where
  deltaFrame60 : Nat
  pauseRequestCount : Nat → Int
  targetPaused : Nat → Bool

/-- Time passes, and nothing is paused. -/
def Frame.IsFree (f : Frame) : Prop :=
  0 < f.deltaFrame60 ∧ f.pauseRequestCount DebugPause ≤ 0 ∧ f.pauseRequestCount LoadingPause ≤ 0

/-- The call of `calcCtx` in a frame. -/
def enterFrame (f : Frame) (s : Sched) : Sched :=
  { s with
    pauseRequestCount := f.pauseRequestCount
    targetPaused := f.targetPaused
    control := .ctxEnter f.deltaFrame60 }

theorem Frame.IsFree.unpaused {f : Frame} (free : f.IsFree) : (s.enterFrame f).Unpaused := by
  obtain ⟨-, debug, loading⟩ := free
  exact ⟨decide_eq_false (Int.not_lt.mpr debug), decide_eq_false (Int.not_lt.mpr loading)⟩

/-- The scheduler between two frames, with scripts to go. -/
structure Between (root : Setup) (s : Sched) (p : ScriptTree.Playing) : Prop where
  control : s.control = .idle
  running : s.running = []
  isAbortReq : s.isAbortReq = false
  isPlaybackBeginPending : s.isPlaybackBeginPending = p.isPlaybackBeginPending
  begins : p.isPlaybackBeginPending = true → p.stack.length = 1 ∧ p.ttl60 = 0
  index : s.moduleStackIndex + 1 = p.stack.length
  stacked : s.Stacked root 0 p.stack p.ttl60
  above : ∀ i, s.moduleStackIndex < i → i < MAX_MODULE_STACK_DEPTH → Vacant (s.moduleStack i)
  fits : ScriptTree.Fits p.stack

theorem Stopped.between {stack : List ScriptTree} {ttl60 : Nat}
    (stopped : Stopped root s 0 [] stack ttl60) (fits : ScriptTree.Fits stack) :
    Between root s ⟨stack, ttl60, false⟩ := by
  refine ⟨stopped.control, stopped.running, stopped.steady.1, stopped.steady.2, nofun, ?_,
    stopped.stacked, stopped.above, fits⟩
  rw [stopped.index, Nat.zero_add]

theorem Between.nonempty {p : ScriptTree.Playing} (between : Between root s p) : p.stack ≠ [] := by
  intro empty
  have index := between.index
  rw [empty, List.length_nil] at index
  omega

/-- A frame, played by the stack machine. -/
theorem Between.frame_leads (scaling : root.inputFPSMode = .fps30_2X) {p : ScriptTree.Playing}
    (between : Between root s p) (f : Frame) (whole : (s.enterFrame f).Whole) :
    ∃ isBlocked spent60 blocked,
      (f.IsFree → isBlocked = false ∧ spent60 = f.deltaFrame60) ∧
        (f.IsFree → s.isFrameAdvance = false → ∀ k i, blocked k i = false) ∧
          TurnLeads root (s.enterFrame f) (ScriptTree.frame isBlocked spent60 blocked p) := by
  obtain ⟨stack, ttl60, isPlaybackBeginPending⟩ := p
  cases stack with
  | nil => exact absurd rfl between.nonempty
  | cons top below =>
    obtain ⟨stands, empty, calm, pending, begins, index, stacked, above, fits⟩ := between
    simp only [List.length_cons, Nat.add_right_cancel_iff] at pending begins index
    have inside : below.length < MAX_MODULE_STACK_DEPTH := by
      have room := fits.1
      omega
    have resting := stacked.1
    rw [Nat.zero_add] at resting
    have entering : Entering root (s.enterFrame f) below.length [] top ttl60 f.deltaFrame60 :=
      ⟨rfl, empty, index, inside, List.pairwise_singleton _ _, calm, resting,
        fun i beyond => above i (index ▸ beyond)⟩
    have onStack {v : Sched} {events : List Event}
        (kept : Kept (s.enterFrame f) v below.length events) : v.Stacked root 0 below 0 :=
      stacked.2.congr fun i _ less => kept.below i (by omega)
    -- once the top is executed, the turn takes its course
    have begin_ (kept : Kept (s.enterFrame f) (s.enterFrame f).tick below.length
        [.execute below.length])
        (executing : Executing root (s.enterFrame f).tick below.length [] top) :=
      turn_leads scaling below top _ _ (leads_tick _) (kept.weaken (Nat.zero_le _)) executing
        (onStack kept) whole fits
    cases isPlaybackBeginPending with
    | true =>
      obtain ⟨bottom, zero⟩ := begins rfl
      subst zero
      have alone : below = [] := List.eq_nil_of_length_eq_zero (by simpa using bottom)
      subst alone
      obtain ⟨executing, kept⟩ := entering.pending pending
      obtain ⟨blocked, free, leads⟩ := begin_ kept executing
      refine ⟨false, f.deltaFrame60, blocked, fun _ => ⟨rfl, rfl⟩,
        fun isFree calmly => free calmly isFree.unpaused, ?_⟩
      rw [ScriptTree.frame, if_neg (by simp), if_neg (by simp)]
      exact leads
    | false =>
      by_cases isBlocked : (s.enterFrame f).slotBlocked root below.length = true
      · obtain ⟨stopped, kept⟩ := entering.blocked pending isBlocked
        refine ⟨true, f.deltaFrame60, fun _ _ => false, fun isFree => ?_, fun _ _ _ _ => rfl, ?_⟩
        · rw [isFree.unpaused.slotBlocked] at isBlocked
          cases isBlocked
        · rw [ScriptTree.frame, if_pos ⟨rfl, rfl⟩]
          refine ⟨_, leads_tick _, ?_, kept.weaken (Nat.zero_le _)⟩
          exact stopped.onto (by simp) (onStack kept)
      · obtain ⟨spent60, -, whole, goes⟩ := entering.unblocked pending (by simpa using isBlocked)
        have spent (isFree : f.IsFree) : false = false ∧ spent60 = f.deltaFrame60 :=
          ⟨rfl, whole isFree.unpaused.1⟩
        by_cases longer : ttl60 - spent60 ≠ 0
        · rw [if_pos longer] at goes
          obtain ⟨stopped, kept⟩ := goes
          refine ⟨false, spent60, fun _ _ => false, spent, fun _ _ _ _ => rfl, ?_⟩
          rw [ScriptTree.frame, if_neg (by simp), if_pos ⟨rfl, longer⟩]
          refine ⟨_, leads_tick _, ?_, kept.weaken (Nat.zero_le _)⟩
          exact stopped.onto (by simp) (onStack kept)
        · rw [if_neg longer] at goes
          obtain ⟨executing, kept⟩ := goes
          obtain ⟨blocked, free, leads⟩ := begin_ kept executing
          refine ⟨false, spent60, blocked, spent,
            fun isFree calmly => free calmly isFree.unpaused, ?_⟩
          rw [ScriptTree.frame, if_neg (by simp), if_neg fun is => longer is.2]
          exact leads

/-- `calcCtx` frame after frame, while there is a script: each call returns before the next
frame. -/
inductive Plays (s : Sched) : List Frame → Sched → Prop
  | start : Plays s [] s
  | frame {frames : List Frame} {t u : Sched} (f : Frame) : Plays s frames t →
      (t.moduleStack 0).asModule ≠ none → Leads tick (t.enterFrame f) u → u.control = .idle →
      Plays s (frames ++ [f]) u

/-- What an observer of script tree `t` shall see, from slot 0 on. -/
def expected (t : ScriptTree) : List Event := .execute 0 :: t.flatten 0

/-- From state `s`, with tree `t` just pushed, the frames play the flattening of `t`. -/
structure PlaysFlattened (t : ScriptTree) (s : Sched) : Prop where
  /-- At any time no abort was requested, and what was seen is what is to be seen so far. -/
  shows : ∀ frames u, Plays s frames u →
    u.isAbortReq = false ∧ ∃ later, u.events ++ later = s.events ++ expected t
  /-- When the stack is empty everything was seen. -/
  complete : ∀ frames u, Plays s frames u → (u.moduleStack 0).asModule = none →
    u.events = s.events ++ expected t
  /-- No frame hangs. -/
  returns : ∀ frames u, Plays s frames u → (u.moduleStack 0).asModule ≠ none →
    ∀ f, ∃ v, Leads tick (u.enterFrame f) v ∧ v.control = .idle
  /-- The stack gets empty, unless the game is paused for good. -/
  completes : ∀ frames : Nat → Frame, (∀ n, ∃ m, n ≤ m ∧ (frames m).IsFree) →
    ∃ n u, Plays s ((List.range n).map frames) u ∧ (u.moduleStack 0).asModule = none

/-- When the source pushes the script tree onto an empty stack, it plays as its flattening. -/
def PlaysAsFlattening (source : PushSource) (t : ScriptTree) : Prop :=
  ∀ s : Sched, s.Idle → PlaysFlattened t (s.pushFrom source .good t.toScript)

/-- A frame ends in one state. -/
theorem leads_idle_unique {v : Sched} (first : Leads tick s u) (second : Leads tick s v)
    (idle : u.control = .idle) (idle' : v.control = .idle) : u = v :=
  first.unique second (by simp [tick, idle]) (by simp [tick, idle'])

theorem Between.asModule {p : ScriptTree.Playing} (between : Between root s p) :
    (s.moduleStack 0).asModule ≠ none := by
  have bottom (stack : List ScriptTree) (ttl60 : Nat) (nonempty : stack ≠ [])
      (stacked : s.Stacked root 0 stack ttl60) : (s.moduleStack 0).asModule ≠ none := by
    induction stack generalizing ttl60 with
    | nil => exact absurd rfl nonempty
    | cons top below ih =>
      cases below with
      | nil => exact stacked.1.asModule
      | cons next below => exact ih 0 (by simp) stacked.2
  exact bottom p.stack p.ttl60 between.nonempty between.stacked

/-- How one frame can end: with nothing left, with less left, or in an abort. -/
inductive FrameEnd (root : Setup) (s : Sched) (p : ScriptTree.Playing) (f : Frame) (u : Sched) : Prop
  | complete : u.isAbortReq = false → (u.moduleStack 0).asModule = none →
      u.events = s.events ++ ScriptTree.flattenStack p.stack →
      (∀ t ∈ p.stack, t.NestedYield) → FrameEnd root s p f u
  | waiting {events : List Event} {stack : List ScriptTree} {ttl60 : Nat} :
      Between root u ⟨stack, ttl60, false⟩ → u.events = s.events ++ events →
      u.isFrameAdvance = s.isFrameAdvance →
      events ++ ScriptTree.flattenStack stack = ScriptTree.flattenStack p.stack →
      ((∀ t ∈ p.stack, t.NestedYield) → ∀ t ∈ stack, t.NestedYield) →
      (f.IsFree → s.isFrameAdvance = false → (∀ t ∈ stack, t.NestedYield) →
        ∀ t ∈ p.stack, t.NestedYield) →
      ttl60 + ScriptTree.stackWeight stack ≤ p.ttl60 + ScriptTree.stackWeight p.stack →
      (f.IsFree → ttl60 + ScriptTree.stackWeight stack < p.ttl60 + ScriptTree.stackWeight p.stack) →
      FrameEnd root s p f u
  | aborted : u.isAbortReq = true → (¬∀ t ∈ p.stack, t.NestedYield) → FrameEnd root s p f u

/-- Every frame that does not crash ends in one of these ways. -/
theorem Between.frame_ends (scaling : root.inputFPSMode = .fps30_2X) {p : ScriptTree.Playing}
    (between : Between root s p) (f : Frame) (whole : (s.enterFrame f).Whole) :
    ∃ u, Leads tick (s.enterFrame f) u ∧ u.control = .idle ∧ FrameEnd root s p f u := by
  obtain ⟨isBlocked, spent60, blocked, spent, free, leads⟩ := between.frame_leads scaling f whole
  have progress := ScriptTree.frame_progress isBlocked spent60 blocked p between.nonempty
  cases ends : ScriptTree.frame isBlocked spent60 blocked p with
  | complete events =>
    rw [ends] at leads progress
    obtain ⟨u, reached, idle, calm, empty, seen⟩ := leads
    refine ⟨u, reached, idle, .complete calm empty ?_ progress.2⟩
    rw [seen, progress.1]
    rfl
  | waiting events stack ttl60 =>
    rw [ends] at leads progress
    obtain ⟨u, reached, stopped, kept⟩ := leads
    obtain ⟨⟨-, same, fits, keeps, unblocked⟩, atMost, less⟩ := progress
    refine ⟨u, reached, stopped.control, .waiting (stopped.between (fits between.fits)) kept.events
      kept.pauses.isFrameAdvance same keeps ?_ atMost ?_⟩
    · exact fun isFree calmly all => unblocked (free isFree calmly) all
    · intro isFree
      obtain ⟨open_, whole⟩ := spent isFree
      exact less open_ (whole ▸ isFree.1)
  | aborted =>
    rw [ends] at leads progress
    obtain ⟨u, reached, idle, aborting⟩ := leads
    exact ⟨u, reached, idle, .aborted aborting progress⟩

/-- A script tree that was just pushed onto an empty stack. -/
theorem Idle.between {t : ScriptTree} (idle : s.Idle) (room : t.depth < MAX_MODULE_STACK_DEPTH)
    (source : PushSource) :
    Between ⟨source.blockOnDebugPause, .fps30_2X⟩ (s.pushFrom source .good t.toScript) ⟨[t], 0, true⟩ ∧
      (s.pushFrom source .good t.toScript).events = s.events ∧
      KeepsPauses s (s.pushFrom source .good t.toScript) := by
  have pushed := s.pushed_pushFrom .good t.toScript source
  generalize s.pushFrom source .good t.toScript = u at pushed ⊢
  cases pushed with
  | refused _ without => simp [getsModule, ScriptSource.good] at without
  | @entered m w _ provided =>
    have waits := idle.provided provided
    have same : w.events = s.events ∧ KeepsPauses s w := by
      cases provided <;> exact ⟨rfl, .of_eq rfl rfl⟩
    have fresh := waits.unprepared 0 (by decide)
    have empty := waits.asModule 0 (by decide)
    have inactive : w.getSP.asCtx.status ≠ .active := by
      rw [getSP, waits.moduleStackIndex, fresh]
      decide
    have top : w.getSP.asModule = none := by rw [getSP, waits.moduleStackIndex, empty]
    have prepared := prepare_of_uninitialized fresh t.toScript
    obtain ⟨stands, running, index, modules, unprepared, -, -, calm, -, -⟩ := waits
    simp only [pushExecModuleEntryPoint, if_neg inactive, if_pos top, index, ScriptSource.good]
    refine ⟨⟨?_, ?_, ?_, ?_, fun _ => ⟨rfl, rfl⟩, ?_, ⟨?_, trivial⟩, fun i beyond within => ?_,
      by simpa using room, trivial⟩, ?_, ?_⟩
    · simpa [enterSlot, ModuleStackFrame.resetState, empty] using stands
    · simpa [enterSlot, ModuleStackFrame.resetState, empty] using running
    · simpa [enterSlot, ModuleStackFrame.resetState, empty] using calm
    · simp [enterSlot, ModuleStackFrame.resetState, empty]
    · simp [enterSlot, ModuleStackFrame.resetState, empty]
    · constructor
      · simp [enterSlot, ModuleStackFrame.resetState, empty, setModule, modifyState, modifyCtx]
      · simp [enterSlot, ModuleStackFrame.resetState, empty, setModule, modifyState, modifyCtx, prepared]
      · simp [enterSlot, ModuleStackFrame.resetState, empty, setModule, modifyState, modifyCtx, prepared]
      · simp [enterSlot, ModuleStackFrame.resetState, empty, setModule, modifyState, modifyCtx, prepared]
      · simp [enterSlot, ModuleStackFrame.resetState, empty, setModule, modifyState, modifyCtx, prepared]
      · simp [enterSlot, ModuleStackFrame.resetState, empty, setModule, modifyState, modifyCtx]
      · constructor <;> simp [enterSlot, ModuleStackFrame.resetState, empty, setModule, modifyState,
          modifyCtx, setup]
    · have different : i ≠ 0 := Nat.ne_of_gt (Nat.lt_of_le_of_lt (Nat.zero_le _) beyond)
      have vacant : Vacant (w.moduleStack i) := ⟨modules i within, unprepared i within⟩
      simpa [enterSlot, ModuleStackFrame.resetState, empty, setModule, modifyState, modifyCtx,
        different] using vacant
    · simpa [enterSlot, ModuleStackFrame.resetState, empty] using same.1
    · refine same.2.trans (.of_eq ?_ ?_)
      · simp [enterSlot, ModuleStackFrame.resetState, empty]
      · funext hash
        simp [enterSlot, ModuleStackFrame.resetState, empty]

theorem Idle.named (idle : s.Idle) : s.Named [] :=
  ⟨idle.moduleStackIndex, trivial, fun i _ inside => ⟨idle.asModule i inside,
    idle.unprepared i inside⟩, fun _ => idle.running⟩

/-- What a push onto an empty stack leaves: nothing, or the script alone. -/
theorem Idle.pushed (idle : s.Idle) (source : PushSource) (answers : ScriptSource)
    (program : Script) :
    let t := s.pushFrom source answers program
    t.Inv ∧ t.EngineOk ∧ t.control ≠ .crash ∧
      (¬t.Runs ∨ t.isAbortReq = true ∨ t.Named [⟨source.target.name, program⟩]) := by
  have pushed := s.pushed_pushFrom answers program source
  have whole : s.control ≠ .crash := by simp [idle.control]
  refine ⟨inv_pushed ⟨idle.stack, .inl ⟨idle.control, idle.running⟩⟩ pushed,
    idle.engine.pushed pushed, pushed_whole whole pushed, ?_⟩
  rcases pushed_cases pushed with over_ | aborting | ⟨k, m, enters⟩
  · exact .inl over_
  · exact .inr (.inl aborting)
  · exact .inr (.inr (idle.named.enters (by decide) enters))

theorem Idle.tidy (idle : s.Idle) (source : PushSource) (answers : ScriptSource) {program : Script}
    (others : program.CallsOthers [] source.target.name) :
    (s.pushFrom source answers program).Tidy := by
  obtain ⟨inv, engine, whole, over_ | aborting | named⟩ := idle.pushed source answers program
  · exact ⟨inv, engine, whole, .inl (by_contra fun runs => over_ ⟨runs, whole⟩)⟩
  · exact ⟨inv, engine, whole, .inr (.inl aborting)⟩
  · exact ⟨inv, engine, whole, .inr (.inr ⟨_, named, others, trivial, trivial⟩)⟩

theorem Idle.doomed (idle : s.Idle) (source : PushSource) (answers : ScriptSource) {program : Script}
    (own : ¬program.CallsOthers [] source.target.name) :
    (s.pushFrom source answers program).Doomed := by
  obtain ⟨-, -, -, over_ | aborting | named⟩ := idle.pushed source answers program
  · exact .inl over_
  · exact .inr (.inl aborting)
  · exact .inr (.inr (.inr ⟨_, named, fun apart => own apart.1⟩))

theorem Plays.idle (stands : s.control = .idle) {frames : List Frame} (plays : Plays s frames u) :
    u.control = .idle := by
  cases plays with
  | start => exact stands
  | frame _ _ _ _ idle => exact idle

theorem Plays.tidy (tidy : s.Tidy) (stands : s.control = .idle) {frames : List Frame}
    (plays : Plays s frames u) : u.Tidy := by
  induction plays with
  | start => exact tidy
  | frame f before _ leads _ ih => exact (ih.frame (before.idle stands) _ _ _).leads leads

/-- A frame of scripts that call others does not crash. -/
theorem Plays.whole (tidy : s.Tidy) (stands : s.control = .idle) {frames : List Frame}
    (plays : Plays s frames u) (f : Frame) : (u.enterFrame f).Whole :=
  ((plays.tidy tidy stands).frame (plays.idle stands) _ _ _).whole_run

/-- A doomed stack does not get empty. -/
theorem Plays.doomed (inv : s.Inv) (engine : s.EngineOk) (doomed : s.Doomed)
    (stands : s.control = .idle) {frames : List Frame} (plays : Plays s frames u) :
    u.Inv ∧ u.EngineOk ∧ u.Doomed := by
  induction plays with
  | start => exact ⟨inv, engine, doomed⟩
  | @frame frames v w f before _ leads _ ih =>
    obtain ⟨inv, engine, doomed⟩ := ih
    have idle := before.idle stands
    have entered : (v.enterFrame f).Inv := by
      obtain ⟨stack, placed⟩ := inv.resolve_left (by simp [idle])
      simp only [Placed, idle] at placed
      refine .inr ⟨⟨stack.index_lt, stack.active, stack.within, stack.nested, stack.above,
        stack.stopping⟩, fun i member => ?_⟩
      rw [show (v.enterFrame f).running = [] from placed] at member
      exact absurd member List.not_mem_nil
    exact (doomed.frame idle _ _ _).leads entered (engine.congr ⟨fun _ => rfl, rfl, rfl, rfl⟩) leads

/-- Along the frames of a tree whose nested scripts all wait: what was seen and what is left. -/
inductive Going (root : Setup) (t : ScriptTree) (s u : Sched) : Prop
  | between {p : ScriptTree.Playing} {events : List Event} : Between root u p →
      (∀ v ∈ p.stack, v.NestedYield) → u.events = s.events ++ events →
      events ++ ScriptTree.flattenStack p.stack = expected t → Going root t s u
  | complete : u.isAbortReq = false → (u.moduleStack 0).asModule = none →
      u.events = s.events ++ expected t → Going root t s u

theorem Plays.going (scaling : root.inputFPSMode = .fps30_2X) {t : ScriptTree}
    (between : Between root s ⟨[t], 0, true⟩) (tidy : s.Tidy) (nested : t.NestedYield)
    {frames : List Frame} (plays : Plays s frames u) : Going root t s u := by
  induction plays with
  | start =>
    refine .between between (by simpa using nested) (List.append_nil _).symm ?_
    simp [ScriptTree.flattenStack, expected]
  | frame f earlier holds leads idle ih =>
    cases ih with
    | complete _ empty _ => exact absurd empty holds
    | between before all events left =>
      obtain ⟨w, leads', idle', ends⟩ :=
        before.frame_ends scaling f (earlier.whole tidy between.control f)
      obtain rfl := leads_idle_unique leads leads' idle idle'
      cases ends with
      | complete calm empty seen _ =>
        refine .complete calm empty ?_
        rw [seen, events, List.append_assoc, left]
      | waiting after seen _ same keeps _ _ _ =>
        refine .between after (keeps all) (by rw [seen, events, List.append_assoc]) ?_
        rw [List.append_assoc, same, left]
      | aborted _ silent => exact absurd all silent

/-- With every nested script waiting for something, frames that pass bring the end. -/
theorem completes_of_nestedYield (scaling : root.inputFPSMode = .fps30_2X) {t : ScriptTree}
    (between : Between root s ⟨[t], 0, true⟩) (tidy : s.Tidy) (nested : t.NestedYield)
    (frames : Nat → Frame) (often : ∀ n, ∃ m, n ≤ m ∧ (frames m).IsFree) :
    ∃ n u, Plays s ((List.range n).map frames) u ∧ (u.moduleStack 0).asModule = none := by
  let Live (n : Nat) (w : Sched × ScriptTree.Playing) : Prop :=
    Plays s ((List.range n).map frames) w.1 ∧ Between root w.1 w.2 ∧ ∀ v ∈ w.2.stack, v.NestedYield
  have begins : Live 0 (s, ⟨[t], 0, true⟩) := ⟨.start, between, by simpa using nested⟩
  refine @ends_of_measure _ Live _ (fun n => (frames n).IsFree)
    (fun w => w.2.ttl60 + ScriptTree.stackWeight w.2.stack) ?_ often _ _ begins
  intro n ⟨u, p⟩ ⟨plays, before, all⟩
  obtain ⟨w, leads, idle, ends⟩ :=
    before.frame_ends scaling (frames n) (plays.whole tidy between.control (frames n))
  have next : Plays s ((List.range (n + 1)).map frames) w := by
    rw [List.range_succ, List.map_append]
    exact .frame (frames n) plays before.asModule leads idle
  cases ends with
  | complete _ empty _ _ => exact .inl ⟨n + 1, w, next, empty⟩
  | waiting after _ _ _ keeps _ atMost less =>
    exact .inr ⟨(w, _), ⟨next, after, keeps all⟩, atMost, less⟩
  | aborted _ silent => exact absurd all silent

theorem playsFlattened_of_nestedYield (scaling : root.inputFPSMode = .fps30_2X) {t : ScriptTree}
    (between : Between root s ⟨[t], 0, true⟩) (tidy : s.Tidy) (nested : t.NestedYield) :
    PlaysFlattened t s := by
  refine ⟨fun frames u plays => ?_, fun frames u plays empty => ?_, fun frames u plays holds f => ?_,
    completes_of_nestedYield scaling between tidy nested⟩
  · cases plays.going scaling between tidy nested with
    | between before _ events left =>
      exact ⟨before.isAbortReq, _, by rw [events, List.append_assoc, left]⟩
    | complete calm _ events => exact ⟨calm, [], by rw [events, List.append_nil]⟩
  · cases plays.going scaling between tidy nested with
    | between before _ _ _ => exact absurd empty before.asModule
    | complete _ _ events => exact events
  · cases plays.going scaling between tidy nested with
    | between before _ _ _ =>
      obtain ⟨v, leads, idle, -⟩ :=
        before.frame_ends scaling f (plays.whole tidy between.control f)
      exact ⟨v, leads, idle⟩
    | complete _ empty _ => exact absurd empty holds

/-- A nested script that never waits is in the way: nothing completes, so there is an abort. -/
theorem nestedYield_of_playsFlattened (scaling : root.inputFPSMode = .fps30_2X) {t : ScriptTree}
    (between : Between root s ⟨[t], 0, true⟩) (calm : s.isFrameAdvance = false)
    (flat : PlaysFlattened t s) : t.NestedYield := by
  by_contra silent
  let f : Frame := ⟨1, fun _ => 0, fun _ => false⟩
  have isFree : f.IsFree := ⟨Nat.one_pos, Int.le_refl 0, Int.le_refl 0⟩
  have stuck (frames : List Frame) (u : Sched) (only : ∀ g ∈ frames, g = f)
      (plays : Plays s frames u) : ∃ p, Between root u p ∧ u.isFrameAdvance = false ∧
        ¬∀ v ∈ p.stack, v.NestedYield := by
    induction plays with
    | start => exact ⟨_, between, calm, by simpa using silent⟩
    | @frame frames v u g before holds leads idle ih =>
      obtain ⟨p, waits, still, someSilent⟩ := ih fun g member => only g (List.mem_append_left _ member)
      obtain ⟨w, leads', idle', ends⟩ :=
        waits.frame_ends scaling g (whole_of_leads leads idle)
      obtain rfl := leads_idle_unique leads leads' idle idle'
      have free : g.IsFree := only g (by simp) ▸ isFree
      cases ends with
      | complete _ _ _ all => exact absurd all someSilent
      | waiting after _ advance _ _ unblocked _ _ =>
        exact ⟨_, after, advance.trans still, fun all => someSilent (unblocked free still all)⟩
      | aborted aborting _ =>
        have shown := (flat.shows _ _ (.frame g before holds leads idle)).1
        rw [aborting] at shown
        cases shown
  obtain ⟨n, u, plays, empty⟩ := flat.completes (fun _ => f) fun n => ⟨n, Nat.le_refl n, isFree⟩
  obtain ⟨p, waits, -⟩ := stuck _ u (fun g member => by
    obtain ⟨_, _, same⟩ := List.mem_map.mp member
    exact same.symm) plays
  exact waits.asModule empty

/-- A script that calls its own file alone is in the way, too: its module is discarded twice. -/
theorem callsOthers_of_playsFlattened (idle : s.Idle) {source : PushSource} {t : ScriptTree}
    (stands : (s.pushFrom source .good t.toScript).control = .idle)
    (flat : PlaysFlattened t (s.pushFrom source .good t.toScript)) :
    t.toScript.CallsOthers [] source.target.name := by
  by_contra own
  obtain ⟨inv, engine, -, -⟩ := idle.pushed source .good t.toScript
  let f : Frame := ⟨1, fun _ => 0, fun _ => false⟩
  have isFree : f.IsFree := ⟨Nat.one_pos, Int.le_refl 0, Int.le_refl 0⟩
  obtain ⟨n, u, plays, empty⟩ := flat.completes (fun _ => f) fun n => ⟨n, Nat.le_refl n, isFree⟩
  obtain ⟨-, -, doomed⟩ := plays.doomed inv engine (idle.doomed source .good own) stands
  exact doomed.not_done (by simp [Runs, plays.idle stands]) (flat.shows _ u plays).1 empty

theorem idle_init : Sched.init.Idle := by
  obtain ⟨stack, -⟩ := inv_init.resolve_left (by decide)
  refine ⟨rfl, rfl, rfl, fun _ _ => rfl, fun _ _ => rfl, rfl, rfl, rfl, stack, engineOk_init⟩

/-- Nested scripts play as their flattening exactly when each has an input that takes time and
none is called by a script of its own name, unless a script below has that name as well. -/
theorem playsAsFlattening_iff (source : PushSource) (t : ScriptTree)
    (room : t.depth < MAX_MODULE_STACK_DEPTH) :
    PlaysAsFlattening source t ↔
      t.NestedYield ∧ t.toScript.CallsOthers [] source.target.name := by
  constructor
  · intro plays
    obtain ⟨between, -, keeps⟩ := idle_init.between room source
    exact ⟨nestedYield_of_playsFlattened rfl between keeps.isFrameAdvance (plays .init idle_init),
      callsOthers_of_playsFlattened idle_init between.control (plays .init idle_init)⟩
  · rintro ⟨nested, others⟩ s idle
    exact playsFlattened_of_nestedYield rfl (idle.between room source).1
      (idle.tidy source .good others) nested

/-- A script that evaluates an empty one before its own input. -/
def silentChild : ScriptTree :=
  .nested (.awaitEval 0) .done (.input 2 1#64 ⟨0, 0⟩ ⟨0, 0⟩ .done)

/-- The first frame returns from the empty script to a parent that is being executed. -/
theorem silentChild_aborts : ∃ u, Plays (Sched.init.pushFrom .autorun .good silentChild.toScript)
    [⟨2, fun _ => 0, fun _ => false⟩] u ∧ u.isAbortReq = true ∧
      u.events = [.execute 0, .execute 1, .abortReq "[tas::schedule::calcCtx] no playable ctx"] :=
  ⟨_, .frame _ .start (by decide +kernel) ⟨9, rfl⟩ (by decide +kernel), by decide +kernel,
    by decide +kernel⟩

/-- A script that executes its own file before its own input. -/
def selfCall : ScriptTree :=
  .nested (.awaitExecFile "sdcard:/totk_lotuskit/autorun.as") (.input 1 2#64 ⟨0, 0⟩ ⟨0, 0⟩ .done)
    (.input 2 1#64 ⟨0, 0⟩ ⟨0, 0⟩ .done)

/-- The third frame ends the outer call, and discards the module for the second time. -/
theorem selfCall_crashes : ∃ u, Plays (Sched.init.pushFrom .autorun .good selfCall.toScript)
    [⟨2, fun _ => 0, fun _ => false⟩, ⟨2, fun _ => 0, fun _ => false⟩] u ∧
      (u.moduleStack 0).asModule ≠ none ∧
      (Sched.tick^[3] (u.enterFrame ⟨4, fun _ => 0, fun _ => false⟩)).control = .crash :=
  ⟨_, .frame _ (.frame _ .start (by decide +kernel) ⟨8, rfl⟩ (by decide +kernel)) (by decide +kernel)
    ⟨7, rfl⟩ (by decide +kernel), by decide +kernel, by decide +kernel⟩

theorem silentChild_not_flattened :
    (silentChild.depth < MAX_MODULE_STACK_DEPTH ∧ ¬PlaysAsFlattening .autorun silentChild) ∧
      (selfCall.depth < MAX_MODULE_STACK_DEPTH ∧ selfCall.NestedYield ∧
        ¬PlaysAsFlattening .autorun selfCall) := by
  refine ⟨⟨by decide, fun flat => ?_⟩, ⟨by decide, ⟨.inl (by decide), trivial, trivial⟩,
    fun flat => ?_⟩⟩
  · obtain ⟨u, plays, aborting, -⟩ := silentChild_aborts
    have shown := ((flat .init idle_init).shows _ u plays).1
    rw [aborting] at shown
    cases shown
  · obtain ⟨u, plays, holds, crashed⟩ := selfCall_crashes
    obtain ⟨v, leads, idle⟩ := (flat .init idle_init).returns _ u plays holds
      ⟨4, fun _ => 0, fun _ => false⟩
    exact whole_of_leads leads idle 3 crashed

/-- With an input in the nested script everything is played. -/
theorem yieldingChild_flattened :
    PlaysAsFlattening .autorun
      (.nested (.awaitEval 0) (.input 1 2#64 ⟨0, 0⟩ ⟨0, 0⟩ .done)
        (.input 2 1#64 ⟨0, 0⟩ ⟨0, 0⟩ .done)) :=
  (playsAsFlattening_iff _ _ (by decide)).mpr
    ⟨⟨.inl (by decide), trivial, trivial⟩, fun same => absurd same (by decide +kernel), trivial,
      trivial⟩

end Sched

end LotusKit.Schedule
