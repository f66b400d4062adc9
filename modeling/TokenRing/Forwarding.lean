import TokenRing.EventLoop

/-!
`ring_on_token` case by case: what it does with a token for this node, with an
empty one and with one that only passes through. A failed send is followed by
a retry, which repeats the step only for a token that passes through.
-/

namespace TokenRing

/-- A full token for this node. -/
def RingState.holdsOwn (state : RingState) : Bool :=
  !state.tokenIn.isEmpty && state.tokenIn.receiver = state.config.current.nodeName

/-- The record in `cli_pending` as it goes into the token. -/
def RingState.record (state : RingState) : Token :=
  { state.cliPending with topoVersion := state.lastSeenTopoVersion }

/-- The state after its record was attached. -/
def RingState.attachedState (state : RingState) : RingState :=
  { state with haveCliPending := false, cliPending := state.cliPending.consumed }

/-- The state after the token was sent. -/
def RingState.released (state : RingState) : RingState :=
  { state with haveToken := false, tokenIn := .zero }

/-- The stored token after this node took its message. -/
def RingState.emptied (state : RingState) : Token :=
  { Token.zero with topoVersion := state.tokenIn.topoVersion, isEmpty := true }

section Cases

variable {state : RingState} {ok : Nat → Bool}

theorem takeOwnMessage_own (hown : state.holdsOwn = true) :
    takeOwnMessage state = (state.emptied, [.received state.tokenIn]) := by
  simp only [RingState.holdsOwn, Bool.and_eq_true, Bool.not_eq_true', decide_eq_true_eq] at hown
  simp [takeOwnMessage, hown, RingState.emptied]

theorem takeOwnMessage_other (hother : state.holdsOwn = false) :
    takeOwnMessage state = (state.tokenIn, []) := by
  unfold takeOwnMessage
  simp only
  rw [if_neg]
  rintro ⟨hfull, hreceiver⟩
  simp [RingState.holdsOwn, hfull, hreceiver] at hother

theorem attachCli_none {out : Token} (h : state.haveCliPending = false ∨ out.isEmpty = false) :
    attachCli state out = (out, state, []) := by
  unfold attachCli
  rcases h with h | h <;> simp [h]

theorem attachCli_some {out : Token} (hcli : state.haveCliPending = true)
    (hempty : out.isEmpty = true) :
    attachCli state out = (state.record, state.attachedState, [.attached state.cliPending]) := by
  simp [attachCli, hcli, hempty, RingState.record, RingState.attachedState]

/-- The call after its first two parts. -/
theorem ringOnToken_eq {taken out : Token} {attached : RingState} {reports records : List Effect}
    (htake : takeOwnMessage state = (taken, reports))
    (hattach : attachCli state taken = (out, attached, records)) :
    ringOnToken state ok =
      (if ok 0 then attached.released else attached,
        reports ++ records ++ [.unicast state.config.next (.token out) (ok 0)]) := by
  unfold ringOnToken
  rw [htake]
  simp only
  rw [hattach]
  simp only
  split <;> rfl

/-- A full token for another node, or an empty one with no record waiting. -/
theorem ringOnToken_passes (hother : state.holdsOwn = false)
    (hno : state.haveCliPending = false ∨ state.tokenIn.isEmpty = false) :
    ringOnToken state ok =
      (if ok 0 then state.released else state,
        [.unicast state.config.next (.token state.tokenIn) (ok 0)]) :=
  ringOnToken_eq (takeOwnMessage_other hother) (attachCli_none hno)

/-- An empty token and a waiting record. -/
theorem ringOnToken_attaches (hempty : state.tokenIn.isEmpty = true)
    (hcli : state.haveCliPending = true) :
    ringOnToken state ok =
      (if ok 0 then state.attachedState.released else state.attachedState,
        [.attached state.cliPending,
          .unicast state.config.next (.token state.record) (ok 0)]) := by
  have hother : state.holdsOwn = false := by simp [RingState.holdsOwn, hempty]
  exact ringOnToken_eq (takeOwnMessage_other hother) (attachCli_some hcli hempty)

/-- A token for this node and no record waiting. -/
theorem ringOnToken_empties (hown : state.holdsOwn = true)
    (hcli : state.haveCliPending = false) :
    ringOnToken state ok =
      (if ok 0 then state.released else state,
        [.received state.tokenIn, .unicast state.config.next (.token state.emptied) (ok 0)]) :=
  ringOnToken_eq (takeOwnMessage_own hown) (attachCli_none (.inl hcli))

/-- A token for this node and a waiting record. -/
theorem ringOnToken_replaces (hown : state.holdsOwn = true)
    (hcli : state.haveCliPending = true) :
    ringOnToken state ok =
      (if ok 0 then state.attachedState.released else state.attachedState,
        [.received state.tokenIn, .attached state.cliPending,
          .unicast state.config.next (.token state.record) (ok 0)]) :=
  ringOnToken_eq (takeOwnMessage_own hown) (attachCli_some hcli rfl)

end Cases

/-- So many failed calls of `ring_on_token`, and one whose send succeeds. -/
def ringOnTokenRetried : Nat → RingState → RingState × List Effect
  | 0, state => ringOnToken state (fun _ => true)
  | k + 1, state =>
      let (failed, out) := ringOnToken state (fun _ => false)
      let (final, more) := ringOnTokenRetried k failed
      (final, out ++ more)

/-- The tokens that were sent. -/
def tokenSends (log : List Effect) : List (Route × Token) :=
  log.filterMap (fun effect =>
    match effect with
    | .unicast dst (.token token) true => some (dst, token)
    | _ => none)

/-- The messages reported as received for this node. -/
def tokenReports (log : List Effect) : List Token :=
  log.filterMap (fun effect =>
    match effect with
    | .received token => some token
    | _ => none)

structure SameOutcome (first second : RingState × List Effect) : Prop where
  sent : tokenSends second.2 = tokenSends first.2
  reported : tokenReports second.2 = tokenReports first.2
  haveToken : second.1.haveToken = first.1.haveToken
  tokenIn : second.1.tokenIn = first.1.tokenIn
  cliPending : second.1.cliPending = first.1.cliPending
  haveCliPending : second.1.haveCliPending = first.1.haveCliPending

section Retries

variable {state : RingState}

/-- A token that passes through is sent unchanged by the last call. -/
theorem ringOnTokenRetried_passes (k : Nat) (hother : state.holdsOwn = false)
    (hno : state.haveCliPending = false ∨ state.tokenIn.isEmpty = false) :
    (ringOnTokenRetried k state).1 = state.released ∧
      tokenSends (ringOnTokenRetried k state).2 = [(state.config.next, state.tokenIn)] ∧
      tokenReports (ringOnTokenRetried k state).2 = [] := by
  induction k with
  | zero =>
      unfold ringOnTokenRetried
      rw [ringOnToken_passes hother hno]
      exact ⟨rfl, rfl, rfl⟩
  | succ k ih =>
      unfold ringOnTokenRetried
      rw [ringOnToken_passes hother hno]
      obtain ⟨hfinal, hsent, hreported⟩ := ih
      exact ⟨hfinal, hsent, hreported⟩

/-- Each failed call reports the message of a token for this node. -/
theorem ringOnTokenRetried_reports (k : Nat) (hown : state.holdsOwn = true) :
    (tokenReports (ringOnTokenRetried k state).2).length = k + 1 := by
  induction k generalizing state with
  | zero =>
      unfold ringOnTokenRetried
      cases hcli : state.haveCliPending with
      | false =>
          rw [ringOnToken_empties hown hcli]
          rfl
      | true =>
          rw [ringOnToken_replaces hown hcli]
          rfl
  | succ k ih =>
      unfold ringOnTokenRetried
      cases hcli : state.haveCliPending with
      | false =>
          rw [ringOnToken_empties hown hcli]
          exact congrArg Nat.succ (ih hown)
      | true =>
          rw [ringOnToken_replaces hown hcli]
          have hstill : state.attachedState.holdsOwn = true := hown
          exact congrArg Nat.succ (ih hstill)

/-- A failed call takes the record out of `cli_pending`, and the retry sends
the empty token. -/
theorem ringOnTokenRetried_drops (k : Nat) (hempty : state.tokenIn.isEmpty = true)
    (hcli : state.haveCliPending = true) :
    (ringOnTokenRetried (k + 1) state).1 = state.attachedState.released ∧
      tokenSends (ringOnTokenRetried (k + 1) state).2 = [(state.config.next, state.tokenIn)] ∧
      tokenReports (ringOnTokenRetried (k + 1) state).2 = [] := by
  have hother : state.attachedState.holdsOwn = false := by
    simp [RingState.holdsOwn, RingState.attachedState, hempty]
  obtain ⟨hfinal, hsent, hreported⟩ := ringOnTokenRetried_passes k hother (.inl rfl)
  unfold ringOnTokenRetried
  rw [ringOnToken_attaches hempty hcli]
  exact ⟨hfinal, hsent, hreported⟩

/-- A message for this node is reported once without failures, and once more
by every retry. -/
theorem retry_reports_again (k : Nat) (hown : state.holdsOwn = true) :
    ¬ SameOutcome (ringOnToken state (fun _ => true)) (ringOnTokenRetried (k + 1) state) := by
  intro hsame
  have hmany := ringOnTokenRetried_reports (k + 1) hown
  have hone := ringOnTokenRetried_reports 0 hown
  have hreported := congrArg List.length hsame.reported
  unfold ringOnTokenRetried at hone
  omega

/-- The retry sends the stored token in place of the record. -/
theorem retry_drops_record (k : Nat) (hempty : state.tokenIn.isEmpty = true)
    (hcli : state.haveCliPending = true) :
    SameOutcome (ringOnToken state (fun _ => true)) (ringOnTokenRetried (k + 1) state) ↔
      state.record = state.tokenIn := by
  obtain ⟨hfinal, hsent, hreported⟩ := ringOnTokenRetried_drops k hempty hcli
  rw [ringOnToken_attaches hempty hcli]
  constructor
  · intro hsame
    have htoken := hsame.sent
    rw [hsent] at htoken
    have hpair : (state.config.next, state.tokenIn) =
        (state.config.next, state.record) := List.head_eq_of_cons_eq htoken
    exact (Prod.mk.inj hpair).2.symm
  · intro hrecord
    refine ⟨?_, hreported, ?_, ?_, ?_, ?_⟩
    · rw [hsent, ← hrecord]
      rfl
    all_goals
      rw [hfinal]
      rfl

/-- A token that only passes through is sent as it is. -/
theorem retry_passes (k : Nat) (hother : state.holdsOwn = false)
    (hno : state.haveCliPending = false ∨ state.tokenIn.isEmpty = false) :
    SameOutcome (ringOnToken state (fun _ => true)) (ringOnTokenRetried k state) := by
  obtain ⟨hfinal, hsent, hreported⟩ := ringOnTokenRetried_passes k hother hno
  rw [ringOnToken_passes hother hno]
  refine ⟨hsent, hreported, ?_, ?_, ?_, ?_⟩
  all_goals
    rw [hfinal]
    rfl

/-- Failed sends change nothing exactly when there are none, or the token only
passes through: it is not for this node, and it is not empty while a record
waits, unless that record is the very token. -/
theorem retry_same_outcome_iff (k : Nat) :
    SameOutcome (ringOnToken state (fun _ => true)) (ringOnTokenRetried k state) ↔
      k = 0 ∨ (state.holdsOwn = false ∧
        (state.tokenIn.isEmpty = true → state.haveCliPending = true →
          state.record = state.tokenIn)) := by
  cases k with
  | zero => exact ⟨fun _ => .inl rfl, fun _ => ⟨rfl, rfl, rfl, rfl, rfl, rfl⟩⟩
  | succ k =>
      cases hown : state.holdsOwn with
      | true => simp [retry_reports_again k hown]
      | false =>
          cases hempty : state.tokenIn.isEmpty with
          | false => simp [retry_passes (k + 1) hown (.inr hempty)]
          | true =>
              cases hcli : state.haveCliPending with
              | false => simp [retry_passes (k + 1) hown (.inl hcli)]
              | true => simp [retry_drops_record k hempty hcli]

/-- A node with the empty token and a record for `B`. -/
def recordWaits : RingState :=
  { RingState.init ⟨⟨NodeName.ofBytes [65], 5001⟩, ⟨NodeName.ofBytes [66], 5002⟩,
      ⟨NodeName.ofBytes [66], 5002⟩⟩ true with
    tokenIn := { Token.zero with isEmpty := true }
    haveToken := true
    cliPending := ⟨[104, 105], NodeName.ofBytes [65], NodeName.ofBytes [66], 0, false⟩
    haveCliPending := true }

/-- The node would forward the token now; after one failed send the record is
gone. -/
theorem record_lost_by_failed_send :
    ¬ ∀ (state : RingState) (k : Nat),
      state.joined = true → state.haveToken = true → state.joinInflight.active = false →
      state.joinState.count = 0 →
        SameOutcome (ringOnToken state (fun _ => true)) (ringOnTokenRetried k state) := by
  intro hall
  have hsame := hall recordWaits 1 rfl rfl rfl rfl
  have hfirst : tokenSends (ringOnToken recordWaits (fun _ => true)).2 =
      [(⟨NodeName.ofBytes [66], 5002⟩,
        ⟨[104, 105], NodeName.ofBytes [65], NodeName.ofBytes [66], 0, false⟩)] := by
    decide +kernel
  have hsecond : tokenSends (ringOnTokenRetried 1 recordWaits).2 =
      [(⟨NodeName.ofBytes [66], 5002⟩,
        ⟨[], NodeName.ofBytes [], NodeName.ofBytes [], 0, true⟩)] := by
    decide +kernel
  have hsent := hsame.sent
  rw [hfirst, hsecond] at hsent
  exact absurd hsent (by decide +kernel)

end Retries

end TokenRing
