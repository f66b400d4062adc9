import TokenRing.Rudp.Recvfrom

/-!
The calls of `rudp_recvfrom` as runs of the machine: where the function returns
there is a run of system calls with the outcomes that the network brought, and
it ends with the same return and the same tables.
-/

namespace TokenRing

/-- From this point, whatever datagrams the call has sent, it comes to the
return. -/
def LeadsTo (result : Endpoint × List RudpOutput) (ret : RecvReturn) : Prop :=
  ∀ log, OnlyDatagrams log → ∃ out,
    Lts.Reachable callStep (result.1, log ++ result.2) (⟨ret.peers, ret.pending, .idle⟩, out) ∧
      Returns out ret.output

/-- The machine where a round has ended. -/
def RoundEnd.result (call : RecvCall) : RoundEnd → Endpoint × List RudpOutput
  | .returns ret => (⟨ret.peers, ret.pending, .idle⟩, [ret.output])
  | .again peers pending _ => Endpoint.receiveFirst ⟨peers, pending, .idle⟩ call

namespace Endpoint

section Steps

variable {ep ep' : Endpoint} {call : RecvCall} {round : AckRound} {peers : Peers}
  {pending pending' : PendingFrames} {loc : RudpLoc} {traffic traffic' : Traffic} {ret : RecvReturn}
  {action : RudpAction} {sent out : List RudpOutput}

theorem leadsTo_return (ret : RecvReturn) :
    LeadsTo (⟨ret.peers, ret.pending, .idle⟩, [ret.output]) ret :=
  fun _ hlog => ⟨_, .refl, hlog.returns ret.output⟩

/-- A system call sends some datagrams, and the call goes on. -/
theorem leadsTo_step (action : RudpAction) (sent : List RudpOutput) (hloc : ep.loc ≠ .idle)
    (hstep : ep.step action = some (ep', sent ++ out)) (hsent : OnlyDatagrams sent)
    (h : LeadsTo (ep', out) ret) : LeadsTo (ep, []) ret := by
  intro log hlog
  obtain ⟨final, hreach, hreturns⟩ := h (log ++ sent) (hlog.append hsent)
  have hcall : callStep (ep, log ++ []) action = some (ep', log ++ sent ++ out) := by
    unfold callStep
    split
    · exact absurd ‹_› hloc
    · simp [Lts.logged, hstep]
  exact ⟨final, Lts.Reaches.head trivial hcall hreach, hreturns⟩

/-- The loop of `receive_message_frame`, with what follows a message. -/
theorem leadsTo_receiveLoop (hloc : loc ≠ .idle)
    (after : PendingFrame → PendingFrames → Endpoint × List RudpOutput)
    (hafter : ∀ pending source datagram, arrival ⟨peers, pending, loc⟩ source datagram true =
      match receiveArrival pending source datagram with
      | (some frame, pending') => some (after ⟨source, frame⟩ pending')
      | (none, pending') => some (⟨peers, pending', loc⟩, []))
    (arrivals : List (SockAddr × Datagram)) (pending : PendingFrames)
    (h : LeadsTo (match PendingFrames.receiveLoop arrivals pending with
      | (some entry, pending', _) => after entry pending'
      | (none, pending', _) => (⟨peers, pending', loc⟩, [])) ret) :
    LeadsTo (⟨peers, pending, loc⟩, []) ret := by
  induction arrivals generalizing pending with
  | nil => exact h
  | cons first rest ih =>
      have hstep := hafter pending first.1 first.2.cut
      unfold PendingFrames.receiveLoop at h
      rcases hread : receiveArrival pending first.1 first.2.cut with ⟨found, stored⟩
      rw [hread] at h hstep
      cases found with
      | some frame =>
          exact leadsTo_step (.arrive first.1 first.2.cut true) [] hloc hstep onlyDatagrams_nil h
      | none =>
          exact leadsTo_step (.arrive first.1 first.2.cut true) [] hloc hstep onlyDatagrams_nil
            (ih stored h)

/-- `receive_message_frame` at one of its two places: what follows a message
there, and what the call returns when a system call fails. -/
theorem leadsTo_receive (hloc : loc ≠ .idle)
    (after : PendingFrame → PendingFrames → Endpoint × List RudpOutput) (failed : RudpOutput)
    (hafter : ∀ pending source datagram, arrival ⟨peers, pending, loc⟩ source datagram true =
      match receiveArrival pending source datagram with
      | (some frame, pending') => some (after ⟨source, frame⟩ pending')
      | (none, pending') => some (⟨peers, pending', loc⟩, []))
    (hblock : ∀ pending, step ⟨peers, pending, loc⟩ .wouldBlock =
      some (⟨peers, pending, .idle⟩, [.nothing]))
    (hfail : ∀ pending, step ⟨peers, pending, loc⟩ .fail =
      some (⟨peers, pending, .idle⟩, [failed])) {result : FrameResult}
    (hreceive : pending.receiveMessageFrame traffic = (result, pending', traffic'))
    (h : LeadsTo (match result with
      | .message entry => after entry pending'
      | .nothing => (⟨peers, pending', .idle⟩, [.nothing])
      | .failed => (⟨peers, pending', .idle⟩, [failed])) ret) :
    LeadsTo (match pending.takeMessageAny with
      | some (entry, pending') => after entry pending'
      | none => (⟨peers, pending, loc⟩, [])) ret := by
  unfold PendingFrames.receiveMessageFrame at hreceive
  cases htake : pending.takeMessageAny with
  | some taken =>
      rw [htake] at hreceive
      cases hreceive
      exact h
  | none =>
      rw [htake] at hreceive
      simp only at hreceive ⊢
      apply leadsTo_receiveLoop hloc after hafter traffic.burst.arrivals pending
      rcases hloop : PendingFrames.receiveLoop traffic.burst.arrivals pending with
        ⟨found, stored, rest⟩
      rw [hloop] at hreceive
      cases found with
      | some entry =>
          cases hreceive
          exact h
      | none =>
          cases hfails : traffic.burst.fails with
          | true =>
              rw [hfails] at hreceive
              cases hreceive
              exact leadsTo_step .fail [] hloc (hfail pending') onlyDatagrams_nil h
          | false =>
              rw [hfails] at hreceive
              cases hreceive
              exact leadsTo_step .wouldBlock [] hloc (hblock pending') onlyDatagrams_nil h

theorem leadsTo_first (loc : RudpLoc) {result : FrameResult}
    (hreceive : pending.receiveMessageFrame traffic = (result, pending', traffic'))
    (h : LeadsTo (match result with
      | .message entry => process ⟨peers, pending', loc⟩ call entry.addr entry.frame
      | .nothing => (⟨peers, pending', .idle⟩, [.nothing])
      | .failed => (⟨peers, pending', .idle⟩, [.recvFailed])) ret) :
    LeadsTo (receiveFirst ⟨peers, pending, loc⟩ call) ret := by
  apply leadsTo_receive (by simp)
    (fun entry pending => process ⟨peers, pending, loc⟩ call entry.addr entry.frame) .recvFailed
    _ _ _ hreceive h
  · intro pending source datagram
    rfl
  · intro pending
    rfl
  · intro pending
    rfl

theorem leadsTo_second (loc : RudpLoc) {result : FrameResult}
    (hduplicate : round.isExpected = false)
    (hreceive : pending.receiveMessageFrame traffic = (result, pending', traffic'))
    (h : LeadsTo (match result with
      | .message _ => receiveFirst ⟨peers, pending', loc⟩ call
      | _ => (⟨peers, pending', .idle⟩, [.nothing])) ret) :
    LeadsTo (finishRound ⟨peers, pending, loc⟩ call round) ret := by
  unfold finishRound
  rw [hduplicate]
  apply leadsTo_receive (by simp)
    (fun _ pending => receiveFirst ⟨peers, pending, loc⟩ call) .nothing _ _ _ hreceive
  · cases result <;> exact h
  · intro pending source datagram
    rfl
  · intro pending
    rfl
  · intro pending
    rfl

/-- The loop of `wait_for_frame`, with what follows the frame. -/
theorem leadsTo_waitLoop (arrivals : List (SockAddr × Datagram)) (pending : PendingFrames)
    (run : WaitRun)
    (hrun : PendingFrames.waitLoop round.source .ackAck round.frame.seqBit arrivals pending = run)
    (h : LeadsTo (if run.returned.isSome then
        finishRound ⟨peers, run.pending, .recvWait call round⟩ call round
      else (⟨peers, run.pending, .recvWait call round⟩, [])) ret) :
    LeadsTo (⟨peers, pending, .recvWait call round⟩, []) ret := by
  induction arrivals generalizing pending run with
  | nil =>
      subst hrun
      exact h
  | cons first rest ih =>
      have hstep := waitStep_waitArrival pending round.source .ackAck round.frame.seqBit first
      unfold PendingFrames.waitLoop at hrun
      rcases harrived : waitArrival pending round.source .ackAck round.frame.seqBit first.1
        first.2.cut true with ⟨found, stored, acks⟩
      have hacks := waitArrival_onlyDatagrams harrived
      rw [harrived] at hrun hstep
      have harrive : step ⟨peers, pending, .recvWait call round⟩
          (.arrive first.1 first.2.cut true) = if found then
            some ((finishRound ⟨peers, stored, .recvWait call round⟩ call round).1,
              acks ++ (finishRound ⟨peers, stored, .recvWait call round⟩ call round).2)
          else some (⟨peers, stored, .recvWait call round⟩, acks) := by
        simp only [step, arrival, harrived]
      cases found with
      | true =>
          cases hstep with
          | found entry hentry hcontrol hanswers =>
              subst hrun
              simp only [hentry, Option.isSome_some, if_true] at h
              exact leadsTo_step _ [] (by simp) harrive onlyDatagrams_nil h
      | false =>
          subst hrun
          rw [← List.append_nil acks] at harrive
          exact leadsTo_step _ acks (by simp) harrive hacks (ih stored _ rfl h)

/-- The `ACK` is sent and the `ACK_ACK` awaited. -/
theorem leadsTo_await (loc : RudpLoc) {result : WaitResult}
    (hawait : pending.awaitFrame round.source .ackAck round.frame.seqBit traffic =
      (result, pending', traffic'))
    (h : LeadsTo (match result with
      | .received => finishRound ⟨peers, pending', .idle⟩ call round
      | .timeout => recvTimeout ⟨peers, pending', .recvWait call round⟩ call round
      | .failed => (⟨peers, pending', .idle⟩, [.recvFailed])) ret) :
    LeadsTo (ackSent ⟨peers, pending, loc⟩ call round) ret := by
  unfold PendingFrames.awaitFrame PendingFrames.waitForFrame at hawait
  unfold ackSent
  simp only at hawait ⊢
  cases htake : pending.takeFrame round.source .ackAck round.frame.seqBit with
  | some taken =>
      obtain ⟨i, entry, hentry⟩ : ∃ i entry,
          pending.takeSlot round.source .ackAck round.frame.seqBit = some i ∧
            pending i = some entry := by
        obtain ⟨i, hslot, _⟩ := Option.map_eq_some_iff.mp htake
        obtain ⟨entry, hentry, _⟩ :=
          (Option.any_eq_true _ _).mp (SlotTable.firstSlot_spec hslot)
        exact ⟨i, entry, hslot, hentry⟩
      rw [htake] at hawait
      simp only [hentry.1, Option.bind_some, hentry.2, Option.isSome_some, if_true] at hawait
      cases hawait
      exact h
  | none =>
      rw [htake] at hawait
      simp only at hawait ⊢
      apply leadsTo_waitLoop traffic.burst.arrivals pending _ rfl
      split at hawait
      · rename_i hfound
        cases hawait
        rw [if_pos hfound]
        exact h
      · rename_i hmissing
        rw [if_neg hmissing]
        cases hfails : traffic.burst.fails with
        | true =>
            rw [hfails] at hawait
            cases hawait
            exact leadsTo_step .fail [] (by simp) rfl onlyDatagrams_nil h
        | false =>
            rw [hfails] at hawait
            cases hawait
            exact leadsTo_step .timeout [] (by simp) rfl onlyDatagrams_nil h

/-- The acknowledging loop; the counter of the round counts up to the bound. -/
theorem leadsTo_ackLoop (left : Nat) (loc : RudpLoc) (round : AckRound)
    (pending : PendingFrames) (traffic : Traffic) {acked : Bool}
    (hleft : round.attempts + left = maxTransmisionAttempts)
    (hloop : pending.ackLoop round.source round.frame.seqBit left traffic =
      (acked, pending', traffic'))
    (h : LeadsTo (if acked then finishRound ⟨peers, pending', .idle⟩ call round
      else (⟨peers, pending', .idle⟩, [.recvFailed])) ret) :
    LeadsTo (if round.attempts < maxTransmisionAttempts then
        (⟨peers, pending, .recvAck call round⟩, [])
      else finishRound ⟨peers, pending, loc⟩ call round) ret := by
  induction left generalizing loc round pending traffic with
  | zero =>
      rw [if_neg (by omega)]
      cases hloop
      exact h
  | succ left ih =>
      rw [if_pos (by omega)]
      unfold PendingFrames.ackLoop at hloop
      split at hloop
      · have hstep : step ⟨peers, pending, .recvAck call round⟩ (.sendto true) =
            some ((ackSent ⟨peers, pending, .recvAck call round⟩ call round).1,
              [.datagram round.source (ackFrame round.frame.seqBit)] ++
                (ackSent ⟨peers, pending, .recvAck call round⟩ call round).2) := rfl
        apply leadsTo_step _ _ (by simp) hstep (onlyDatagrams_singleton _ _)
        rcases hawait : pending.awaitFrame round.source .ackAck round.frame.seqBit traffic.sent with
          ⟨result, waited, traffic₁⟩
        rw [hawait] at hloop
        apply leadsTo_await _ hawait
        cases result with
        | received =>
            cases hloop
            exact h
        | timeout =>
            exact ih (.recvWait call round) { round with attempts := round.attempts + 1 } waited
              traffic₁ (by simp only; omega) hloop h
        | failed =>
            cases hloop
            exact h
      · cases hloop
        exact leadsTo_step (.sendto false) [] (by simp) rfl onlyDatagrams_nil h

/-- A round of the outer loop. -/
theorem leadsTo_recvRound (traffic : Traffic) (loc : RudpLoc)
    (h : LeadsTo ((recvRound call peers pending traffic).result call) ret) :
    LeadsTo (receiveFirst ⟨peers, pending, loc⟩ call) ret := by
  unfold recvRound at h
  rcases hfirst : pending.receiveMessageFrame traffic with ⟨first, pending₁, traffic₁⟩
  rw [hfirst] at h
  apply leadsTo_first loc hfirst
  cases first with
  | nothing => exact h
  | failed => exact h
  | message entry =>
      simp only at h ⊢
      unfold process
      simp only
      cases hpeer : peers.getPeer entry.addr true with
      | none =>
          rw [hpeer] at h
          exact h
      | some got =>
          obtain ⟨i, peers'⟩ := got
          rw [hpeer] at h
          simp only at h ⊢
          rcases hloop : pending₁.ackLoop entry.addr entry.frame.seqBit maxTransmisionAttempts
            traffic₁ with ⟨acked, pending₂, traffic₂⟩
          rw [hloop] at h
          refine leadsTo_ackLoop maxTransmisionAttempts loc
            { peer := i
              source := entry.addr
              frame := entry.frame
              isExpected := entry.frame.seqBit = (peers'.stateAt i).expectedSeqBit
              attempts := 0 } pending₁ traffic₁ rfl hloop ?_
          cases acked with
          | false => exact h
          | true =>
              simp only [if_true] at h ⊢
              by_cases hexpected : entry.frame.seqBit = (peers'.stateAt i).expectedSeqBit
              · rw [if_pos (decide_eq_true hexpected)] at h
                unfold finishRound
                rw [if_pos (decide_eq_true hexpected)]
                exact h
              · rw [if_neg (by simpa using hexpected)] at h
                rcases hsecond : pending₂.receiveMessageFrame traffic₂ with
                  ⟨second, pending₃, traffic₃⟩
                rw [hsecond] at h
                apply leadsTo_second .idle (decide_eq_false hexpected) hsecond
                cases second <;> exact h

theorem leadsTo_recvLoop (rounds : Nat) (peers : Peers) (pending : PendingFrames)
    (traffic : Traffic) (loc : RudpLoc)
    (h : recvLoop call rounds peers pending traffic = some ret) :
    LeadsTo (receiveFirst ⟨peers, pending, loc⟩ call) ret := by
  induction rounds generalizing peers pending traffic loc with
  | zero => cases h
  | succ rounds ih =>
      unfold recvLoop at h
      apply leadsTo_recvRound traffic loc
      cases hround : recvRound call peers pending traffic with
      | returns last =>
          rw [hround] at h
          cases h
          exact leadsTo_return ret
      | again peers' pending' traffic' =>
          rw [hround] at h
          exact ih peers' pending' traffic' .idle h

end Steps

end Endpoint

/-- The function returns what a call of the machine does. -/
theorem rudpRecvfrom_ends {rounds : Nat} {call : RecvCall} {peers : Peers}
    {pending : PendingFrames} {traffic : Traffic} {ret : RecvReturn}
    (h : rudpRecvfrom rounds call peers pending traffic = some ret) :
    ∃ out, Endpoint.Ends ⟨peers, pending, .idle⟩ (.recv call.len call.buffer)
      ⟨ret.peers, ret.pending, .idle⟩ out ∧ Returns out ret.output := by
  have hleads : LeadsTo (Endpoint.startRecv ⟨peers, pending, .idle⟩ call) ret := by
    unfold rudpRecvfrom at h
    unfold Endpoint.startRecv
    split at h
    · rename_i hlong
      cases h
      rw [if_pos hlong]
      exact Endpoint.leadsTo_return ⟨.recvFailed, peers, pending, traffic⟩
    · rename_i hfits
      rw [if_neg hfits]
      exact Endpoint.leadsTo_recvLoop rounds peers pending traffic .idle h
  obtain ⟨out, hreach, hreturns⟩ := hleads [] onlyDatagrams_nil
  exact ⟨out, ⟨rfl, rfl, _, rfl, hreach⟩, hreturns⟩

end TokenRing
