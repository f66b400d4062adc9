import Mathlib.Algebra.Ring.Int.Defs
import TokenRing.CompletedQueue
import TokenRing.EventLoop
import TokenRing.Lib.MarkedMin
import TokenRing.Timestamps

/-!
`set_select_timeout`: how long the event loop may sleep in `select`. The timers
of the state are the ones on which the ticks of the loop wait.
-/

namespace TokenRing

def selectTimeoutS : Int := 10

/-- A `struct timeval`. -/
structure Timeval where
  tvSec : Int
  tvUsec : Int
deriving DecidableEq

/-- The deadline of a timer: at once when it has never been sent. -/
def deadlineOf (lastSent period now : Int) : Int :=
  if lastSent = 0 then now else lastSent + period

/-- The accept of the join in flight waits for a confirmation. -/
def RingState.acceptWaits (state : RingState) : Bool :=
  state.joinInflight.active &&
    !(state.joinInflight.gotConfirmPrev && state.joinInflight.gotConfirmJoiner)

/-- The acknowledgement of an accept waits for its answer. -/
def RingState.ackWaits (state : RingState) : Bool :=
  state.ackSender.active && !state.ackSender.gotAckAck

/-- The part of `set_select_timeout` that computes `next_deadline`; 0 stands for
none. -/
def nextDeadline (state : RingState) (now : Int) : Int :=
  let nextDeadline :=
    if !state.joined then deadlineOf state.joinRequestLastSent joinRequestTimeoutS now else 0
  let nextDeadline :=
    if state.acceptWaits then
      MarkedMin.keepSooner nextDeadline
        (deadlineOf state.joinInflight.lastSent joinAcceptTimeoutS now)
    else
      nextDeadline
  let nextDeadline :=
    if state.joinState.count > 0 then
      MarkedMin.keepSooner nextDeadline (now + 1)
    else
      nextDeadline
  if state.ackWaits then
    MarkedMin.keepSooner nextDeadline (deadlineOf state.ackSender.lastSent joinAckResendS now)
  else
    nextDeadline

/-- `set_select_timeout`, which returns 1 at every exit. The cast of the seconds
to `int` keeps the low 32 bits. -/
def setSelectTimeout (state : RingState) (rudpHasPending : Bool) (now : Int)
    (timeout : Timeval) : Timeval :=
  if state.joinInflight.active && state.joinInflight.gotConfirmPrev &&
      state.joinInflight.gotConfirmJoiner then
    ⟨0, 0⟩
  else if rudpHasPending then
    ⟨0, 0⟩
  else if state.haveToken && state.joined && !state.joinInflight.active then
    ⟨0, 0⟩
  else if nextDeadline state now = 0 then
    { timeout with tvSec := selectTimeoutS }
  else if nextDeadline state now ≤ now then
    ⟨0, 0⟩
  else
    ⟨Int.bmod (nextDeadline state now - now) (2 ^ 32), 0⟩

/-- The loop has something to do at once. -/
def RingState.atOnce (state : RingState) (rudpHasPending : Bool) : Bool :=
  (state.joinInflight.active && state.joinInflight.gotConfirmPrev &&
      state.joinInflight.gotConfirmJoiner) ||
    (rudpHasPending ||
      (state.haveToken && state.joined && !state.joinInflight.active))

/-- The deadlines that apply. -/
def RingState.deadlines (state : RingState) (now : Int) : List Int :=
  (if state.joined then [] else [deadlineOf state.joinRequestLastSent joinRequestTimeoutS now]) ++
  ((if state.acceptWaits then
      [deadlineOf state.joinInflight.lastSent joinAcceptTimeoutS now] else []) ++
  ((if state.joinState.count > 0 then [now + 1] else []) ++
  (if state.ackWaits then [deadlineOf state.ackSender.lastSent joinAckResendS now] else [])))

/-- Microseconds. -/
def Timeval.usec (timeout : Timeval) : Int := 1000000 * timeout.tvSec + timeout.tvUsec

/-- What the caller needs of the timeout. -/
structure GoodTimeout (state : RingState) (rudpHasPending : Bool) (now : Int) : Prop where
  determined : ∀ before other, setSelectTimeout state rudpHasPending now before =
    setSelectTimeout state rudpHasPending now other
  valid : ∀ before, 0 ≤ (setSelectTimeout state rudpHasPending now before).tvSec ∧
    0 ≤ (setSelectTimeout state rudpHasPending now before).tvUsec ∧
    (setSelectTimeout state rudpHasPending now before).tvUsec < 1000000
  atOnce : state.atOnce rudpHasPending = true →
    ∀ before, setSelectTimeout state rudpHasPending now before = ⟨0, 0⟩
  inTime : state.atOnce rudpHasPending = false → ∀ before, ∀ deadline ∈ state.deadlines now,
    1000000 * now + (setSelectTimeout state rudpHasPending now before).usec ≤
      1000000 * max now deadline
  bounded : ∀ before, (setSelectTimeout state rudpHasPending now before).usec ≤
    1000000 * selectTimeoutS

/-- A timer of the state runs. -/
def RingState.TimerRuns (state : RingState) : Prop :=
  state.joined = false ∨ state.acceptWaits = true ∨ state.joinState.count > 0 ∨
    state.ackWaits = true

/-- A timer runs that has never been sent. -/
def RingState.NeverSent (state : RingState) : Prop :=
  (state.joined = false ∧ state.joinRequestLastSent = 0) ∨
    (state.acceptWaits = true ∧ state.joinInflight.lastSent = 0) ∨
    (state.ackWaits = true ∧ state.ackSender.lastSent = 0)

section Deadlines

variable {state : RingState} {now deadline : Int}

theorem foldl_optional (applies : Prop) [Decidable applies] (least deadline : Int) :
    (if applies then [deadline] else []).foldl MarkedMin.keepSooner least =
      if applies then MarkedMin.keepSooner least deadline else least := by
  split <;> rfl

theorem nextDeadline_eq (state : RingState) (now : Int) :
    nextDeadline state now = MarkedMin.markedMin (state.deadlines now) := by
  unfold nextDeadline RingState.deadlines MarkedMin.markedMin
  simp only [List.foldl_append, foldl_optional]
  cases state.joined with
  | true => rfl
  | false => simp

theorem mem_deadlines : deadline ∈ state.deadlines now ↔
    (state.joined = false ∧
        deadline = deadlineOf state.joinRequestLastSent joinRequestTimeoutS now) ∨
      (state.acceptWaits = true ∧
        deadline = deadlineOf state.joinInflight.lastSent joinAcceptTimeoutS now) ∨
      (state.joinState.count > 0 ∧ deadline = now + 1) ∨
      (state.ackWaits = true ∧
        deadline = deadlineOf state.ackSender.lastSent joinAckResendS now) := by
  have hoptional : ∀ (applies : Prop) [Decidable applies] (value : Int),
      deadline ∈ (if applies then [value] else []) ↔ applies ∧ deadline = value := by
    intro applies _ value
    split
    · simp_all
    · simp_all
  unfold RingState.deadlines
  rw [List.mem_append, List.mem_append, List.mem_append, hoptional, hoptional, hoptional]
  cases state.joined with
  | true => simp
  | false => simp

theorem deadlineOf_bounds {lastSent period : Int} (hpassed : 0 ≤ lastSent ∧ lastSent ≤ now)
    (hperiod : 0 < period) :
    0 ≤ deadlineOf lastSent period now ∧ deadlineOf lastSent period now ≤ now + period ∧
      (deadlineOf lastSent period now = 0 ↔ now = 0 ∧ lastSent = 0) := by
  unfold deadlineOf
  split
  · omega
  · omega

/-- A deadline lies at most as far ahead as the longest sleep, and it is 0 only
for a timer that has never been sent, at the time 0. -/
theorem deadline_bounds (h : StampsPassed state now) (hmem : deadline ∈ state.deadlines now) :
    0 ≤ deadline ∧ deadline ≤ now + selectTimeoutS ∧
      (deadline = 0 → now = 0 ∧ state.NeverSent) := by
  have hrequest := deadlineOf_bounds h.request (by decide : 0 < joinRequestTimeoutS)
  have haccept := deadlineOf_bounds h.accept (by decide : 0 < joinAcceptTimeoutS)
  have hack := deadlineOf_bounds h.ack (by decide : 0 < joinAckResendS)
  have hnow := h.request.1.trans h.request.2
  simp only [joinRequestTimeoutS, joinAcceptTimeoutS, joinAckResendS] at hrequest haccept hack
  simp only [selectTimeoutS]
  rcases mem_deadlines.mp hmem with ⟨hruns, rfl⟩ | ⟨hruns, rfl⟩ | ⟨_, rfl⟩ | ⟨hruns, rfl⟩
  · refine ⟨hrequest.1, hrequest.2.1, ?_⟩
    intro hzero
    obtain ⟨hnow, hnever⟩ := hrequest.2.2.mp hzero
    exact ⟨hnow, .inl ⟨hruns, hnever⟩⟩
  · refine ⟨haccept.1, haccept.2.1.trans (by omega), ?_⟩
    intro hzero
    obtain ⟨hnow, hnever⟩ := haccept.2.2.mp hzero
    exact ⟨hnow, .inr (.inl ⟨hruns, hnever⟩)⟩
  · omega
  · refine ⟨hack.1, hack.2.1.trans (by omega), ?_⟩
    intro hzero
    obtain ⟨hnow, hnever⟩ := hack.2.2.mp hzero
    exact ⟨hnow, .inr (.inr ⟨hruns, hnever⟩)⟩

theorem zero_mem_deadlines (hnow : now = 0) (hnever : state.NeverSent) :
    0 ∈ state.deadlines now := by
  apply mem_deadlines.mpr
  rcases hnever with ⟨hruns, hlast⟩ | ⟨hruns, hlast⟩ | ⟨hruns, hlast⟩
  · exact .inl ⟨hruns, by simp [deadlineOf, hlast, hnow]⟩
  · exact .inr (.inl ⟨hruns, by simp [deadlineOf, hlast, hnow]⟩)
  · exact .inr (.inr (.inr ⟨hruns, by simp [deadlineOf, hlast, hnow]⟩))

theorem timerRuns_iff : state.TimerRuns ↔ ∃ deadline, deadline ∈ state.deadlines now := by
  simp only [mem_deadlines, RingState.TimerRuns, exists_or, exists_and_left, exists_eq, and_true]

end Deadlines

section Ticks

variable {state : RingState} {now lastSent period : Int}

theorem now_lt_deadlineOf (h : now < deadlineOf lastSent period now) :
    lastSent ≠ 0 ∧ now - lastSent < period := by
  unfold deadlineOf at h
  split at h
  · omega
  · rename_i hsent
    exact ⟨hsent, by omega⟩

/-- Before its deadline no tick of the loop sends anything. -/
theorem request_waits (sent : Bool)
    (h : now < deadlineOf state.joinRequestLastSent joinRequestTimeoutS now) :
    joinFsmRequestTick state now sent = some (state, []) := by
  unfold joinFsmRequestTick
  rw [if_pos (now_lt_deadlineOf h)]
  split <;> rfl

theorem accept_waits (ok : Nat → Bool) (hwaits : state.acceptWaits = true)
    (h : now < deadlineOf state.joinInflight.lastSent joinAcceptTimeoutS now) :
    joinFsmInflightTick state now ok = (state, []) := by
  obtain ⟨hactive, hmissing⟩ := Bool.and_eq_true_iff.mp hwaits
  have hconfirmed : (state.joinInflight.gotConfirmPrev &&
      state.joinInflight.gotConfirmJoiner) = false := by
    simpa only [Bool.not_eq_true'] using hmissing
  unfold joinFsmInflightTick
  rw [if_neg (by simp [hactive]), if_neg (by simp [hconfirmed]), if_pos (now_lt_deadlineOf h)]

theorem ack_waits (ok : Nat → Bool) (hwaits : state.ackWaits = true)
    (h : now < deadlineOf state.ackSender.lastSent joinAckResendS now) :
    joinAckSenderTick state now ok = (state, []) := by
  obtain ⟨hactive, hmissing⟩ := Bool.and_eq_true_iff.mp hwaits
  have hgot : state.ackSender.gotAckAck = false := by
    simpa only [Bool.not_eq_true'] using hmissing
  unfold joinAckSenderTick
  rw [if_neg (by simp [hactive]), if_neg (by simp [hgot]), if_pos (now_lt_deadlineOf h)]

end Ticks

section Exits

variable {state : RingState} {rudpHasPending : Bool} {now : Int}

theorem setSelectTimeout_atOnce (h : state.atOnce rudpHasPending = true) (before : Timeval) :
    setSelectTimeout state rudpHasPending now before = ⟨0, 0⟩ := by
  unfold setSelectTimeout
  split
  · rfl
  split
  · rfl
  split
  · rfl
  · simp_all [RingState.atOnce]

theorem setSelectTimeout_none (h : state.atOnce rudpHasPending = false)
    (hnone : nextDeadline state now = 0) (before : Timeval) :
    setSelectTimeout state rudpHasPending now before = { before with tvSec := selectTimeoutS } := by
  simp only [RingState.atOnce, Bool.or_eq_false_iff] at h
  simp [setSelectTimeout, h, hnone]

/-- With a deadline the sleep lasts until then, or not at all. -/
theorem setSelectTimeout_due (hstamps : StampsPassed state now)
    (h : state.atOnce rudpHasPending = false) (hsome : nextDeadline state now ≠ 0)
    (before : Timeval) :
    nextDeadline state now ∈ state.deadlines now ∧
      setSelectTimeout state rudpHasPending now before =
        ⟨max 0 (nextDeadline state now - now), 0⟩ := by
  have hmem : nextDeadline state now ∈ state.deadlines now := by
    rw [nextDeadline_eq] at hsome ⊢
    exact MarkedMin.markedMin_mem hsome
  have hbound := (deadline_bounds hstamps hmem).2.1
  simp only [selectTimeoutS] at hbound
  simp only [RingState.atOnce, Bool.or_eq_false_iff] at h
  refine ⟨hmem, ?_⟩
  unfold setSelectTimeout
  simp only [h, hsome, if_false, Bool.false_eq_true]
  split
  · rw [max_eq_left (by omega)]
  · rw [max_eq_right (by omega)]
    congr 1
    apply Int.bmod_eq_of_le
    · omega
    · omega

/-- While all deadlines are seen, the sleep ends in time. -/
theorem goodTimeout_of_timer (hstamps : StampsPassed state now)
    (h : state.atOnce rudpHasPending = false) (hruns : state.TimerRuns)
    (hsent : ¬ (now = 0 ∧ state.NeverSent)) : GoodTimeout state rudpHasPending now := by
  have hzero : 0 ∉ state.deadlines now :=
    fun hmem => hsent ((deadline_bounds hstamps hmem).2.2 rfl)
  have hleast : ∀ deadline ∈ state.deadlines now,
      nextDeadline state now ≠ 0 ∧ nextDeadline state now ≤ deadline := by
    intro deadline hmem
    rw [nextDeadline_eq]
    exact MarkedMin.markedMin_le hzero hmem
  obtain ⟨first, hfirst⟩ := timerRuns_iff.mp hruns
  have hdue := setSelectTimeout_due hstamps h (hleast first hfirst).1
  have hbound := (deadline_bounds hstamps (hdue (⟨0, 0⟩)).1).2.1
  constructor
  · intro before other
    rw [(hdue before).2, (hdue other).2]
  · intro before
    rw [(hdue before).2]
    simp
  · intro honce
    rw [h] at honce
    cases honce
  · intro _ before deadline hmem
    have hle := (hleast deadline hmem).2
    rw [(hdue before).2]
    simp only [Timeval.usec]
    omega
  · intro before
    rw [(hdue before).2]
    simp only [Timeval.usec, selectTimeoutS] at hbound ⊢
    omega

theorem goodTimeout_atOnce (h : state.atOnce rudpHasPending = true) :
    GoodTimeout state rudpHasPending now := by
  constructor
  · intro before other
    rw [setSelectTimeout_atOnce h, setSelectTimeout_atOnce h]
  · intro before
    rw [setSelectTimeout_atOnce h]
    decide
  · intro _ before
    exact setSelectTimeout_atOnce h before
  · intro hlater
    rw [h] at hlater
    cases hlater
  · intro before
    rw [setSelectTimeout_atOnce h]
    decide

/-- The timeout is good exactly when the loop has something to do at once, or a
timer runs and no running one has its first deadline at the time 0. -/
theorem select_timeout_good_iff (state : RingState) (rudpHasPending : Bool) (now : Int)
    (hstamps : StampsPassed state now) :
    GoodTimeout state rudpHasPending now ↔ state.atOnce rudpHasPending = true ∨
      (state.TimerRuns ∧ ¬ (now = 0 ∧ state.NeverSent)) := by
  constructor
  · intro hgood
    cases honce : state.atOnce rudpHasPending with
    | true => exact .inl rfl
    | false =>
        right
        have hsome : nextDeadline state now ≠ 0 := by
          intro hnone
          have hsame := hgood.determined ⟨0, 0⟩ ⟨0, 1⟩
          rw [setSelectTimeout_none honce hnone, setSelectTimeout_none honce hnone] at hsame
          cases hsame
        obtain ⟨hmem, hsleep⟩ := setSelectTimeout_due hstamps honce hsome ⟨0, 0⟩
        refine ⟨timerRuns_iff.mpr ⟨_, hmem⟩, ?_⟩
        rintro ⟨hnow, hnever⟩
        -- the deadline 0 has been taken for none, and the sleep goes past it
        have hlate := hgood.inTime honce ⟨0, 0⟩ 0 (zero_mem_deadlines hnow hnever)
        have hpos := (deadline_bounds hstamps hmem).1
        rw [hsleep] at hlate
        simp only [Timeval.usec] at hlate
        omega
  · rintro (honce | ⟨hruns, hsent⟩)
    · exact goodTimeout_atOnce honce
    · cases honce : state.atOnce rudpHasPending with
      | true => exact goodTimeout_atOnce honce
      | false => exact goodTimeout_of_timer hstamps honce hruns hsent

/-- A coordinator that repeats its accept and an acknowledgement of its own, with
a request in its queue. -/
def busyCoordinator : RingState :=
  { RingState.init neighbours true with
    haveToken := true
    joinInflight := { JoinInflight.zero with active := true, lastSent := 100 }
    ackSender := { JoinAckSender.zero with active := true, lastSent := 99 }
    joinState := (JoinState.zero.addPendingJoin ⟨7, NodeName.ofBytes [67], 5003⟩ 0 98).getD
      JoinState.zero }

theorem busy_coordinator_timeout_good : GoodTimeout busyCoordinator false 100 := by
  have hruns : busyCoordinator.TimerRuns := .inr (.inl (by decide))
  refine (select_timeout_good_iff busyCoordinator false 100 ?_).mpr (.inr ⟨hruns, ?_⟩)
  · exact ⟨by decide, by decide, by decide⟩
  · rintro ⟨hclock, _⟩
    cases hclock

/-- A joined node without the token and without requests: what `select` has left
of the last sleep is added to the ten seconds. -/
theorem idle_node_sleeps_longer :
    ¬ ∀ (state : RingState) (rudpHasPending : Bool) (now : Int), StampsPassed state now →
      GoodTimeout state rudpHasPending now := by
  intro hall
  have hgood := hall (RingState.init neighbours true) false 100 ⟨by decide, by decide, by decide⟩
  have hlong : (setSelectTimeout (RingState.init neighbours true) false 100 ⟨0, 400000⟩).usec =
      10400000 := by
    decide
  have hbound := hgood.bounded ⟨0, 400000⟩
  rw [hlong] at hbound
  simp [selectTimeoutS] at hbound

end Exits

end TokenRing
