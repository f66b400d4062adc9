import TokenRing.Rudp.WaitForFrame
import TokenRing.SelectTimeout

/-!
`wait_for_frame` with its clock: what it makes of the readings of
`gettimeofday`, how long it lets each `select` sleep, and when it gives up. The
frames that arrive meanwhile are treated as if there were no clock.
-/

namespace TokenRing

/-- `elapsed`: the difference of two readings, cut to an `int`. -/
def elapsedUsec (start now : Timeval) : Int32 :=
  .ofInt ((now.tvSec - start.tvSec) * 1000000 + (now.tvUsec - start.tvUsec))

def remainingUsec (timeoutUs : Int32) (start now : Timeval) : Int32 :=
  timeoutUs - elapsedUsec start now

/-- From 2 ^ 31 microseconds on, less than 36 minutes, the clock seems to stand
before the start, and the wait begins again. -/
example : remainingUsec 100000 ⟨0, 0⟩ ⟨2140, 0⟩ < 0 ∧
    0 < remainingUsec 100000 ⟨0, 0⟩ ⟨2150, 0⟩ := by
  decide

/-- What `select` and the `recvfrom` after it give. -/
inductive Waited where
  | timedOut
  | failed
  | notReady
  | datagram (source : SockAddr) (datagram : Datagram)

/-- A pass of the loop: the time read, and what becomes of the `select`. -/
structure WaitPass where
  now : Timeval
  waited : Waited

/-- What a call has come to: its return value, if it has returned, the readings
and the `tv_usec` of its selects, the datagrams it has read, and the buffer. -/
structure ClockedRun where
  result : Option Int
  selects : List (Timeval × Int32)
  arrivals : List (SockAddr × Datagram)
  pending : PendingFrames

section Loop

variable (start : Timeval) (timeoutUs : Int32) (expectedAddr : SockAddr)
  (expectedType : FrameType) (expectedSeq : UInt8)

/-- The loop of `wait_for_frame`. -/
def clockedLoop : List WaitPass → PendingFrames → ClockedRun
  | [], pending => ⟨none, [], [], pending⟩
  | pass :: rest, pending =>
      let remaining := remainingUsec timeoutUs start pass.now
      if remaining ≤ 0 then
        ⟨some 0, [], [], pending⟩
      else
        match pass.waited with
        | .timedOut => ⟨some 0, [(pass.now, remaining)], [], pending⟩
        | .failed => ⟨some (-1), [(pass.now, remaining)], [], pending⟩
        | .notReady =>
            let run := clockedLoop rest pending
            { run with selects := (pass.now, remaining) :: run.selects }
        | .datagram source datagram =>
            match Endpoint.waitArrival pending expectedAddr expectedType expectedSeq source
                datagram.cut true with
            | (true, pending', _) =>
                ⟨some 1, [(pass.now, remaining)], [(source, datagram)], pending'⟩
            | (false, pending', _) =>
                let run := clockedLoop rest pending'
                { run with
                  selects := (pass.now, remaining) :: run.selects
                  arrivals := (source, datagram) :: run.arrivals }

/-- `wait_for_frame` on the passes of its loop; the first reading is before the
look into the buffer. -/
def clockedWait (pending : PendingFrames) (passes : List WaitPass) : ClockedRun :=
  match pending.takeFrame expectedAddr expectedType expectedSeq with
  | some pending' => ⟨some 1, [], [], pending'⟩
  | none => clockedLoop start timeoutUs expectedAddr expectedType expectedSeq passes pending

end Loop

/-- The call keeps its deadline: every `select` may sleep until then and not
longer, the return value 0 is not early, and a call that goes on is not late. -/
structure KeepsDeadline (deadline : Int) (timeoutUs : Int32) (passes : List WaitPass)
    (run : ClockedRun) : Prop where
  selects : ∀ now usec, (now, usec) ∈ run.selects →
    0 < usec.toInt ∧ usec.toInt ≤ timeoutUs.toInt ∧ now.usec + usec.toInt = deadline
  ends : run.result = some 0 → ∃ pass ∈ passes, deadline ≤ pass.now.usec ∨
    pass.waited = .timedOut ∧ ∃ usec, (pass.now, usec) ∈ run.selects
  waits : run.result = none → ∀ pass ∈ passes, pass.now.usec < deadline

/-- The readings of a clock that is not before the start and less than 2 ^ 31
microseconds behind it. -/
def ClockRuns (start : Timeval) (passes : List WaitPass) : Prop :=
  ∀ pass ∈ passes, start.usec ≤ pass.now.usec ∧ pass.now.usec - start.usec < 2 ^ 31

section Clock

variable {start : Timeval} {timeoutUs : Int32} {expectedAddr : SockAddr}
  {expectedType : FrameType} {expectedSeq : UInt8} {pending : PendingFrames}
  {passes : List WaitPass} {pass : WaitPass}

theorem elapsedUsec_toInt {now : Timeval} (h : start.usec ≤ now.usec)
    (hshort : now.usec - start.usec < 2 ^ 31) :
    (elapsedUsec start now).toInt = now.usec - start.usec := by
  have heq : (now.tvSec - start.tvSec) * 1000000 + (now.tvUsec - start.tvUsec) =
      now.usec - start.usec := by
    simp only [Timeval.usec]
    omega
  rw [elapsedUsec, heq]
  exact Int32.toInt_ofInt_of_le (by omega) hshort

theorem remainingUsec_toInt {now : Timeval} (htimeout : 0 ≤ timeoutUs.toInt)
    (h : start.usec ≤ now.usec) (hshort : now.usec - start.usec < 2 ^ 31) :
    (remainingUsec timeoutUs start now).toInt = start.usec + timeoutUs.toInt - now.usec := by
  have hlimit := timeoutUs.toInt_lt
  rw [remainingUsec, Int32.toInt_sub, elapsedUsec_toInt h hshort,
    Int.bmod_eq_of_le (by omega) (by omega)]
  omega

theorem remainingUsec_pos_iff {now : Timeval} (htimeout : 0 ≤ timeoutUs.toInt)
    (h : start.usec ≤ now.usec) (hshort : now.usec - start.usec < 2 ^ 31) :
    ¬ remainingUsec timeoutUs start now ≤ 0 ↔ now.usec < start.usec + timeoutUs.toInt := by
  rw [Int32.le_iff_toInt_le, remainingUsec_toInt htimeout h hshort]
  change ¬ _ ≤ (0 : Int) ↔ _
  omega

/-- One more pass before the deadline. -/
theorem KeepsDeadline.cons {run : ClockedRun} (htimeout : 0 ≤ timeoutUs.toInt)
    (h : start.usec ≤ pass.now.usec) (hshort : pass.now.usec - start.usec < 2 ^ 31)
    (hearly : pass.now.usec < start.usec + timeoutUs.toInt)
    (hrun : KeepsDeadline (start.usec + timeoutUs.toInt) timeoutUs passes run)
    (arrivals : List (SockAddr × Datagram)) :
    KeepsDeadline (start.usec + timeoutUs.toInt) timeoutUs (pass :: passes)
      { run with
        selects := (pass.now, remainingUsec timeoutUs start pass.now) :: run.selects
        arrivals := arrivals } := by
  have hremaining := remainingUsec_toInt htimeout h hshort
  refine ⟨?_, ?_, ?_⟩
  · intro now usec hmem
    rcases List.mem_cons.mp hmem with heq | hlater
    · cases heq
      rw [hremaining]
      omega
    · exact hrun.selects now usec hlater
  · intro hover
    obtain ⟨found, hmem, hcase⟩ := hrun.ends hover
    refine ⟨found, List.mem_cons_of_mem _ hmem, hcase.imp_right ?_⟩
    rintro ⟨htimedOut, usec, hselect⟩
    exact ⟨htimedOut, usec, List.mem_cons_of_mem _ hselect⟩
  · intro hwaits found hmem
    rcases List.mem_cons.mp hmem with rfl | hlater
    · exact hearly
    · exact hrun.waits hwaits found hlater

/-- The last pass before the deadline. -/
theorem KeepsDeadline.last {run : ClockedRun} (htimeout : 0 ≤ timeoutUs.toInt)
    (h : start.usec ≤ pass.now.usec) (hshort : pass.now.usec - start.usec < 2 ^ 31)
    (hearly : pass.now.usec < start.usec + timeoutUs.toInt)
    (hselects : run.selects = [(pass.now, remainingUsec timeoutUs start pass.now)])
    (hreturns : run.result ≠ none) (hover : run.result = some 0 → pass.waited = .timedOut) :
    KeepsDeadline (start.usec + timeoutUs.toInt) timeoutUs (pass :: passes) run := by
  have hremaining := remainingUsec_toInt htimeout h hshort
  refine ⟨?_, ?_, fun hwaits => absurd hwaits hreturns⟩
  · intro now usec hmem
    rw [hselects] at hmem
    cases List.mem_singleton.mp hmem
    rw [hremaining]
    omega
  · intro hzero
    refine ⟨pass, List.mem_cons_self,
      .inr ⟨hover hzero, remainingUsec timeoutUs start pass.now, ?_⟩⟩
    rw [hselects]
    exact List.mem_singleton_self _

theorem clockedLoop_keeps (htimeout : 0 ≤ timeoutUs.toInt) (hclock : ClockRuns start passes) :
    KeepsDeadline (start.usec + timeoutUs.toInt) timeoutUs passes
      (clockedLoop start timeoutUs expectedAddr expectedType expectedSeq passes pending) := by
  induction passes generalizing pending with
  | nil => exact ⟨by simp [clockedLoop], by simp [clockedLoop], by simp⟩
  | cons pass rest ih =>
      obtain ⟨hpassed, hshort⟩ := hclock pass List.mem_cons_self
      have hlater : ClockRuns start rest := fun later hmem =>
        hclock later (List.mem_cons_of_mem _ hmem)
      have hpos := remainingUsec_pos_iff htimeout hpassed hshort
      unfold clockedLoop
      by_cases hearly : pass.now.usec < start.usec + timeoutUs.toInt
      · simp only [if_neg (hpos.mpr hearly)]
        cases hwaited : pass.waited with
        | timedOut => exact .last htimeout hpassed hshort hearly rfl (by simp) (fun _ => hwaited)
        | failed => exact .last htimeout hpassed hshort hearly rfl (by simp) (by simp)
        | notReady => exact (ih hlater).cons htimeout hpassed hshort hearly _
        | datagram source datagram =>
            simp only
            generalize Endpoint.waitArrival pending expectedAddr expectedType expectedSeq source
              datagram.cut true = result
            obtain ⟨found, pending', acks⟩ := result
            cases found with
            | true => exact .last htimeout hpassed hshort hearly rfl (by simp) (by simp)
            | false => exact (ih hlater).cons htimeout hpassed hshort hearly _
      · have hover : remainingUsec timeoutUs start pass.now ≤ 0 := by
          by_contra hcontra
          exact hearly (hpos.mp hcontra)
        simp only [if_pos hover]
        exact ⟨by simp, fun _ => ⟨pass, List.mem_cons_self, .inl (by omega)⟩, by simp⟩

/-- With its clock the loop does to the buffer what it does without. -/
theorem clockedLoop_refines (passes : List WaitPass) (pending : PendingFrames) :
    let run := clockedLoop start timeoutUs expectedAddr expectedType expectedSeq passes pending
    let unclocked := PendingFrames.waitLoop expectedAddr expectedType expectedSeq run.arrivals
      pending
    run.pending = unclocked.pending ∧ (run.result = some 1 ↔ unclocked.returned.isSome) := by
  induction passes generalizing pending with
  | nil => simp [clockedLoop, PendingFrames.waitLoop]
  | cons pass rest ih =>
      unfold clockedLoop
      by_cases hover : remainingUsec timeoutUs start pass.now ≤ 0
      · simp [hover, PendingFrames.waitLoop]
      · simp only [if_neg hover]
        cases hwaited : pass.waited with
        | timedOut => simp [PendingFrames.waitLoop]
        | failed => simp [PendingFrames.waitLoop]
        | notReady => exact ih pending
        | datagram source datagram =>
            simp only
            have hstep := waitStep_waitArrival pending expectedAddr expectedType expectedSeq
              (source, datagram)
            simp only at hstep
            cases hresult : Endpoint.waitArrival pending expectedAddr expectedType expectedSeq
              source datagram.cut true with
            | mk found after =>
                obtain ⟨pending', acks⟩ := after
                rw [hresult] at hstep
                cases found with
                | true =>
                    have hsome : (readEntry (source, datagram)).isSome := by
                      cases hstep with
                      | found entry hentry => rw [hentry]; rfl
                    simp [PendingFrames.waitLoop, hresult, hsome]
                | false =>
                    simp only [PendingFrames.waitLoop, hresult]
                    exact ih pending'

end Clock

/-- Whatever the passes of the loop bring, and however many datagrams of others
arrive: while the clock runs for less than 2 ^ 31 microseconds, every `select` of
`wait_for_frame` is told to sleep until the one deadline, the call returns 0 only
when the deadline has come, and it does not go on afterwards. What it returns
and keeps of the frames is what the call without a clock does. -/
theorem wait_keeps_deadline (start : Timeval) (timeoutUs : Int32) (expectedAddr : SockAddr)
    (expectedType : FrameType) (expectedSeq : UInt8) (pending : PendingFrames)
    (passes : List WaitPass) (htimeout : 0 ≤ timeoutUs.toInt) (hclock : ClockRuns start passes) :
    let run := clockedWait start timeoutUs expectedAddr expectedType expectedSeq pending passes
    let unclocked := pending.waitForFrame expectedAddr expectedType expectedSeq run.arrivals
    KeepsDeadline (start.usec + timeoutUs.toInt) timeoutUs passes run ∧
      run.pending = unclocked.pending ∧ (run.result = some 1 ↔ unclocked.returned.isSome) := by
  unfold clockedWait PendingFrames.waitForFrame
  cases htake : pending.takeFrame expectedAddr expectedType expectedSeq with
  | none =>
      exact ⟨clockedLoop_keeps htimeout hclock, clockedLoop_refines passes pending⟩
  | some pending' =>
      refine ⟨⟨by simp, by simp, by simp⟩, rfl, ?_⟩
      obtain ⟨i, hslot, _⟩ := Option.map_eq_some_iff.mp htake
      change pending.takeSlot expectedAddr expectedType expectedSeq = some i at hslot
      obtain ⟨entry, hentry, _⟩ := (Option.any_eq_true _ _).mp (SlotTable.firstSlot_spec hslot)
      simp [hslot, hentry]

/-- Half of the time is spent on a stray frame, the rest on nothing. -/
theorem stray_frame_keeps_deadline :
    let run := clockedWait ⟨7, 900000⟩ 500000 ⟨2, 5002, 2⟩ .ack 0 SlotTable.empty
      [⟨⟨7, 900001⟩, .datagram ⟨2, 5003, 2⟩ (.frame ⟨.ack, 0, []⟩)⟩, ⟨⟨8, 150000⟩, .timedOut⟩]
    run.result = some 0 ∧ run.selects = [(⟨7, 900001⟩, 499999), (⟨8, 150000⟩, 250000)] ∧
      KeepsDeadline 8400000 500000
        [⟨⟨7, 900001⟩, .datagram ⟨2, 5003, 2⟩ (.frame ⟨.ack, 0, []⟩)⟩,
          ⟨⟨8, 150000⟩, .timedOut⟩] run := by
  refine ⟨by decide +kernel, by decide +kernel, ?_⟩
  refine (wait_keeps_deadline ⟨7, 900000⟩ 500000 ⟨2, 5002, 2⟩ .ack 0 SlotTable.empty _ ?_ ?_).1
  · decide
  · intro pass hmem
    simp only [List.mem_cons, List.not_mem_nil, or_false] at hmem
    rcases hmem with rfl | rfl <;> decide

end TokenRing
