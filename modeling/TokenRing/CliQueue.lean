import TokenRing.Lib.Separated
import TokenRing.Transition

/-!
The records read from the FIFO against the records attached to a token. Along
a run of the event loop they agree, up to the one that still waits in
`cli_pending`, exactly when the node gets to pass on a free token between any
two readings. Reading waits for none of what passing on depends on: the node
has joined, it holds the token, no join is in flight and the queue is empty.
-/

namespace TokenRing

/-- The records that `handle_cli_if_ready` read, in order. -/
def recordsRead (log : List Effect) : List Token :=
  log.filterMap (fun effect =>
    match effect with
    | .cliRead record => some record
    | _ => none)

/-- The records that `ring_on_token` attached, in order. -/
def recordsAttached (log : List Effect) : List Token :=
  log.filterMap (fun effect =>
    match effect with
    | .attached record => some record
    | _ => none)

/-- The record in `cli_pending`, if one waits there. -/
def waitingRecord (state : RingState) : List Token :=
  if state.haveCliPending then [state.cliPending] else []

/-- `handle_cli_if_ready` reads a record: it looks at the stored token only. -/
def Node.readsRecord (node : Node) : Event → Bool
  | .cliRecord _ => node.loc = .cli && node.state.tokenIn.isEmpty
  | _ => false

/-- `handle_token_if_ready` gets to `ring_on_token`: the node has joined, it
holds the token, no join is in flight and none is queued. -/
def RingState.forwards (state : RingState) : Bool :=
  state.joined && state.haveToken && !state.joinInflight.active && !(state.joinState.count > 0)

/-- The node passes on a token that was empty or addressed to it. -/
def Node.passesFreeToken (node : Node) : Event → Bool
  | .handleTokenIfReady _ _ =>
      node.loc = .token && node.state.forwards &&
        (node.state.tokenIn.isEmpty ||
          node.state.tokenIn.receiver = node.state.config.current.nodeName)
  | _ => false

@[simp] theorem recordsRead_append (first second : List Effect) :
    recordsRead (first ++ second) = recordsRead first ++ recordsRead second := by
  simp [recordsRead]

@[simp] theorem recordsAttached_append (first second : List Effect) :
    recordsAttached (first ++ second) = recordsAttached first ++ recordsAttached second := by
  simp [recordsAttached]

@[simp] theorem recordsRead_unicast (dst : Route) (msg : UnicastMsg) (ok : Bool)
    (log : List Effect) : recordsRead (.unicast dst msg ok :: log) = recordsRead log := rfl

@[simp] theorem recordsRead_attached (record : Token) (log : List Effect) :
    recordsRead (.attached record :: log) = recordsRead log := rfl

@[simp] theorem recordsAttached_unicast (dst : Route) (msg : UnicastMsg) (ok : Bool)
    (log : List Effect) :
    recordsAttached (.unicast dst msg ok :: log) = recordsAttached log := rfl

@[simp] theorem recordsAttached_attached (record : Token) (log : List Effect) :
    recordsAttached (.attached record :: log) = record :: recordsAttached log := rfl

@[simp] theorem records_nil : recordsRead [] = [] ∧ recordsAttached [] = [] := ⟨rfl, rfl⟩

/-- Sends and reports of received tokens are neither. -/
def NoRecord (log : List Effect) : Prop :=
  ∀ effect ∈ log, (∃ dst msg ok, effect = .unicast dst msg ok) ∨
    (∃ msg, effect = .broadcast msg) ∨ ∃ token, effect = .received token

theorem noRecord_reads {log : List Effect} (h : NoRecord log) :
    recordsRead log = [] ∧ recordsAttached log = [] := by
  constructor
  · apply List.filterMap_eq_nil_iff.mpr
    intro effect member
    rcases h effect member with ⟨_, _, _, rfl⟩ | ⟨_, rfl⟩ | ⟨_, rfl⟩ <;> rfl
  · apply List.filterMap_eq_nil_iff.mpr
    intro effect member
    rcases h effect member with ⟨_, _, _, rfl⟩ | ⟨_, rfl⟩ | ⟨_, rfl⟩ <;> rfl

theorem noRecord_nil : NoRecord [] := by
  intro effect member
  cases member

/-- What `ring_on_token` attaches leaves `cli_pending`. -/
theorem ringOnToken_records (state : RingState) (ok : Nat → Bool) :
    recordsRead (ringOnToken state ok).2 = [] ∧
      recordsAttached (ringOnToken state ok).2 ++ waitingRecord (ringOnToken state ok).1 =
        waitingRecord state := by
  have htaken : NoRecord (takeOwnMessage state).2 := by
    unfold takeOwnMessage
    simp only
    split
    · exact fun effect member => .inr (.inr ⟨_, List.mem_singleton.mp member⟩)
    · exact noRecord_nil
  obtain ⟨hread, hattached⟩ := noRecord_reads htaken
  unfold ringOnToken attachCli
  by_cases hattach : (state.haveCliPending && (takeOwnMessage state).1.isEmpty) = true
  · have hpending : state.haveCliPending = true := by
      simp only [Bool.and_eq_true] at hattach
      exact hattach.1
    simp only [hattach, if_true]
    cases ok 0 <;> simp [hread, hattached, waitingRecord, hpending]
  · simp only [hattach]
    cases ok 0 <;> simp [hread, hattached, waitingRecord]

theorem inflightSends_noRecord (state : RingState) (ok : Nat → Bool) :
    NoRecord (inflightSends state ok) := by
  intro effect member
  rcases mem_inflightSends member with ⟨_, heq⟩ | ⟨_, heq⟩
  · exact .inl ⟨_, _, _, heq⟩
  · exact .inl ⟨_, _, _, heq⟩

theorem OnlyAckAcks.noRecord {answers : List Effect} (h : OnlyAckAcks answers) :
    NoRecord answers := by
  intro effect member
  obtain ⟨_, _, _, _, heq⟩ := h effect member
  exact .inl ⟨_, _, _, heq⟩

/-- A transition reads no record and only moves the waiting one to a token, or
it reads a record, which then is the one that waits. -/
theorem Transition.records {state state' : RingState} {event : Event} {out : List Effect}
    (h : Transition state event state' out) :
    (recordsRead out = [] ∧
      recordsAttached out ++ waitingRecord state' = waitingRecord state) ∨
    ∃ record, event = .cliRecord record ∧ state.tokenIn.isEmpty = true ∧
      recordsRead out = [record] ∧ recordsAttached out = [] ∧
      waitingRecord state' = [record] := by
  have hquiet : ∀ after : RingState, NoRecord out →
      waitingRecord after = waitingRecord state →
      recordsRead out = [] ∧
        recordsAttached out ++ waitingRecord after = waitingRecord state := by
    intro after hout hsame
    obtain ⟨hread, hattached⟩ := noRecord_reads hout
    exact ⟨hread, by rw [hattached, hsame]; rfl⟩
  cases h with
  | acceptsSent now ok retries hactive =>
      exact .inl (hquiet _ (inflightSends_noRecord state ok) rfl)
  | completed event hevent mid answers hactive hmid hprev hjoiner hanswers =>
      refine .inl (hquiet _ ?_ ?_)
      · intro effect member
        rcases List.mem_append.mp member with hcommit | hanswer
        · exact .inr (.inl ⟨_, List.mem_singleton.mp hcommit⟩)
        · exact hanswers.noRecord effect hanswer
      · rcases hmid with rfl | ⟨_, _, _, _, rfl⟩ <;> rfl
  | ackAnswered requestId fromName now ok answers hanswers =>
      exact .inl (hquiet _ hanswers.noRecord rfl)
  | confirmed fromName now ok answers hactive hanswers =>
      exact .inl (hquiet _ hanswers.noRecord rfl)
  | recordRead record hempty => exact .inr ⟨record, rfl, hempty, rfl, rfl, rfl⟩
  | joinStarted now ok pending joinState hjoined htoken hidle hpop =>
      exact .inl (hquiet _ (inflightSends_noRecord _ ok) rfl)
  | forwarded now ok hjoined htoken hidle hcount => exact .inl (ringOnToken_records state ok)
  | requestSent | ackSent | acceptJoined | acceptLinked => exact .inl ⟨rfl, rfl⟩
  | idle | queueShrunk | senderChanged | tokenStored | tokenTaken | enqueued | commitSeen
  | commitCompleted => exact .inl ⟨rfl, rfl⟩

theorem Node.goesTo_of_step {node : Node} {event : Event} {after : Node × List Effect}
    (h : node.step event = some after) : ∃ loc, event.goesTo node.loc = some loc := by
  unfold Node.step at h
  split at h
  · cases h
  · exact ⟨_, ‹_›⟩

theorem Node.loc_of_cliRecord {node : Node} {record : Token} {after : Node × List Effect}
    (h : node.step (.cliRecord record) = some after) : node.loc = .cli := by
  obtain ⟨_, hgoes⟩ := Node.goesTo_of_step h
  cases hloc : node.loc <;> simp [hloc, Event.goesTo] at hgoes ⊢

theorem Node.loc_of_handleTokenIfReady {node : Node} {now : Int} {ok : Nat → Bool}
    {after : Node × List Effect} (h : node.step (.handleTokenIfReady now ok) = some after) :
    node.loc = .token := by
  obtain ⟨_, hgoes⟩ := Node.goesTo_of_step h
  cases hloc : node.loc <;> simp [hloc, Event.goesTo] at hgoes ⊢

/-- The same for a step of the loop: it reads a record only at the point of
`handle_cli_if_ready`, over an empty stored token. -/
theorem Node.step_records {node node' : Node} {event : Event} {out : List Effect}
    (h : node.step event = some (node', out)) :
    (recordsRead out = [] ∧
      recordsAttached out ++ waitingRecord node'.state = waitingRecord node.state) ∨
    ∃ record, event = .cliRecord record ∧ node.loc = .cli ∧
      node.state.tokenIn.isEmpty = true ∧ recordsRead out = [record] ∧
      recordsAttached out = [] ∧ waitingRecord node'.state = [record] := by
  rcases Node.step_cases h with hhandle | ⟨_, hsame, rfl⟩
  · rcases (event.handle_transition hhandle).records with hmoved | ⟨record, rfl, hrest⟩
    · exact .inl hmoved
    · exact .inr ⟨record, rfl, Node.loc_of_cliRecord h, hrest⟩
  · exact .inl ⟨rfl, by rw [hsame]; rfl⟩

/-- The records read so far are those attached and the one that waits. -/
def RecordsKept (run : Node × List Effect) : Prop :=
  recordsRead run.2 = recordsAttached run.2 ++ waitingRecord run.1.state

/-- A step keeps the account exactly when it does not read over a waiting
record. -/
theorem recordsKept_step_iff {node node' : Node} {log out : List Effect} {event : Event}
    (hkept : RecordsKept (node, log)) (h : node.step event = some (node', out)) :
    RecordsKept (node', log ++ out) ↔
      ¬ (node.readsRecord event = true ∧ node.state.haveCliPending = true) := by
  unfold RecordsKept at *
  rcases Node.step_records h with
    ⟨hread, hmoved⟩ | ⟨record, rfl, hloc, hempty, hread, hattached, hwaits⟩
  · have hnot : node.readsRecord event = false := by
      cases event with
      | cliRecord record =>
          by_contra hreads
          have hboth : node.loc = .cli ∧ node.state.tokenIn.isEmpty = true := by
            simpa [Node.readsRecord] using hreads
          obtain ⟨hloc, hempty⟩ := hboth
          simp [Node.step, Event.goesTo, hloc, Event.handle, handleCliIfReady, hempty] at h
          rw [← h.2] at hread
          cases hread
      | _ => rfl
    simp [hread, hkept, hnot, hmoved]
  · have hreads : node.readsRecord (.cliRecord record) = true := by
      simp [Node.readsRecord, hloc, hempty]
    cases hpending : node.state.haveCliPending with
    | true =>
        have hbefore : waitingRecord node.state = [node.state.cliPending] := by
          simp [waitingRecord, hpending]
        simp [hread, hattached, hwaits, hkept, hbefore, hreads]
    | false =>
        have hbefore : waitingRecord node.state = [] := by simp [waitingRecord, hpending]
        simp [hread, hattached, hwaits, hkept, hbefore]

theorem takeOwnMessage_isEmpty (state : RingState) : (takeOwnMessage state).1.isEmpty =
    (state.tokenIn.isEmpty || state.tokenIn.receiver = state.config.current.nodeName) := by
  unfold takeOwnMessage
  cases hempty : state.tokenIn.isEmpty <;>
    by_cases hown : state.tokenIn.receiver = state.config.current.nodeName <;>
      simp [hempty, hown]

/-- `ring_on_token` attaches the waiting record to a token that is empty or for
this node. -/
theorem ringOnToken_pending (state : RingState) (ok : Nat → Bool) :
    (ringOnToken state ok).1.haveCliPending =
      if (takeOwnMessage state).1.isEmpty then false else state.haveCliPending := by
  have hattached : (ringOnToken state ok).1.haveCliPending =
      (attachCli state (takeOwnMessage state).1).2.1.haveCliPending := by
    unfold ringOnToken
    cases ok 0 <;> rfl
  rw [hattached]
  unfold attachCli
  cases hpending : state.haveCliPending with
  | false => cases (takeOwnMessage state).1.isEmpty <;> simp [hpending]
  | true => cases (takeOwnMessage state).1.isEmpty <;> simp [hpending]

theorem handleCliIfReady_pending (state : RingState) (record : Token) :
    (handleCliIfReady state record).1.haveCliPending =
      (state.tokenIn.isEmpty || state.haveCliPending) := by
  unfold handleCliIfReady
  cases hempty : state.tokenIn.isEmpty <;> simp

/-- Other handlers, and `handle_token_if_ready` where it does not get to
`ring_on_token`, leave `have_cli_pending` as it is. -/
theorem Transition.pending {state state' : RingState} {event : Event} {out : List Effect}
    (h : Transition state event state' out) (hrecord : ∀ record, event ≠ .cliRecord record)
    (hforwards : ∀ now ok, event = .handleTokenIfReady now ok → state.forwards = false) :
    state'.haveCliPending = state.haveCliPending := by
  cases h with
  | completed event hevent mid answers hactive hmid =>
      rcases hmid with rfl | ⟨_, _, _, _, rfl⟩ <;> rfl
  | recordRead record hempty => exact absurd rfl (hrecord record)
  | forwarded now ok hjoined htoken hidle hcount =>
      have hnot := hforwards now ok rfl
      simp [RingState.forwards, hjoined, htoken, hidle, hcount] at hnot
  | _ => rfl

theorem handleTokenIfReady_forwards {state : RingState} (h : state.forwards = true) (now : Int)
    (ok : Nat → Bool) : handleTokenIfReady state now ok = ringOnToken state ok := by
  simp only [RingState.forwards, Bool.and_eq_true, Bool.not_eq_true',
    decide_eq_false_iff_not] at h
  obtain ⟨⟨⟨hjoined, hhave⟩, hidle⟩, hcount⟩ := h
  simp [handleTokenIfReady, hjoined, hhave, hidle, hcount]

/-- `handle_token_if_ready` takes up the waiting record exactly when it passes on
a free token. -/
theorem handleTokenIfReady_pending (state : RingState) (now : Int) (ok : Nat → Bool) :
    (handleTokenIfReady state now ok).1.haveCliPending =
      if state.forwards && (state.tokenIn.isEmpty ||
        state.tokenIn.receiver = state.config.current.nodeName) then false
      else state.haveCliPending := by
  cases hforwards : state.forwards with
  | true =>
      rw [handleTokenIfReady_forwards hforwards, ringOnToken_pending, takeOwnMessage_isEmpty,
        Bool.true_and]
  | false =>
      have htransition : Transition state (.handleTokenIfReady now ok)
          (handleTokenIfReady state now ok).1 (handleTokenIfReady state now ok).2 :=
        Event.handle_transition _ rfl
      exact htransition.pending (by simp) fun _ _ _ => hforwards

/-- A record waits from its reading until the node passes on a free token. -/
theorem Node.step_pending {node node' : Node} {event : Event} {out : List Effect}
    (h : node.step event = some (node', out)) :
    node'.state.haveCliPending =
      if node.readsRecord event then true
      else if node.passesFreeToken event then false else node.state.haveCliPending := by
  rcases Node.step_cases h with hhandle | ⟨hstops, hsame, _⟩
  · cases event with
    | cliRecord record =>
        have hstate : (handleCliIfReady node.state record).1 = node'.state :=
          congrArg Prod.fst (Option.some.inj hhandle)
        rw [← hstate, handleCliIfReady_pending]
        simp [Node.readsRecord, Node.passesFreeToken, Node.loc_of_cliRecord h]
    | handleTokenIfReady now ok =>
        have hstate : (handleTokenIfReady node.state now ok).1 = node'.state :=
          congrArg Prod.fst (Option.some.inj hhandle)
        rw [← hstate, handleTokenIfReady_pending]
        simp [Node.readsRecord, Node.passesFreeToken, Node.loc_of_handleTokenIfReady h]
    | _ =>
        rw [(Event.handle_transition _ hhandle).pending (by simp) (by simp)]
        rfl
  · -- a read that fails ends the loop and changes nothing
    rw [hsame]
    cases event <;> first | rfl | cases hstops

/-- Along a run of the event loop the records read are those attached to a
token and the one that waits, in this order and at every point, exactly when
between any two readings the node passes on a free token. -/
theorem records_kept_iff_token_between_reads (config : RouteConfig) (joined shouldStart : Bool)
    (requestId : UInt32) (events : List Event) :
    (∀ done run, done <+: events →
      Lts.exec (Lts.logged Node.step) (Node.start config joined shouldStart requestId, [])
        done = some run → RecordsKept run) ↔
    Separated (fun visit => visit.1.1.readsRecord visit.2)
      (fun visit => visit.1.1.passesFreeToken visit.2)
      (Lts.visits (Lts.logged Node.step) (Node.start config joined shouldStart requestId, [])
        events) := by
  have hstart : (Node.start config joined shouldStart requestId).state.haveCliPending = false := by
    cases joined <;> cases shouldStart <;> rfl
  have hkept : RecordsKept (Node.start config joined shouldStart requestId, []) := by
    simp [RecordsKept, waitingRecord, hstart]
  have hbreaks : ∀ (run : Node × List Effect) (event : Event) (after : Node × List Effect),
      RecordsKept run → Lts.logged Node.step run event = some after →
        (RecordsKept after ↔
          ¬ (run.1.readsRecord event = true ∧ run.1.state.haveCliPending = true)) := by
    rintro ⟨node, log⟩ event after hnow hstep
    obtain ⟨⟨node', out⟩, hresult, rfl⟩ := Option.map_eq_some_iff.mp hstep
    exact recordsKept_step_iff hnow hresult
  have hwaits : ∀ (run : Node × List Effect) (event : Event) (after : Node × List Effect),
      Lts.logged Node.step run event = some after →
        after.1.state.haveCliPending =
          if run.1.readsRecord event then true
          else if run.1.passesFreeToken event then false else run.1.state.haveCliPending := by
    rintro ⟨node, log⟩ event after hstep
    obtain ⟨⟨node', out⟩, hresult, rfl⟩ := Option.map_eq_some_iff.mp hstep
    exact Node.step_pending hresult
  rw [Lts.kept_iff_separated (fun visit => visit.1.1.readsRecord visit.2)
    (fun visit => visit.1.1.passesFreeToken visit.2) (fun run => run.1.state.haveCliPending)
    hbreaks hwaits hkept events, hstart]
  simp

/-- Every send of the event succeeds. -/
def Event.SendsSucceed : Event → Prop
  | .joinFsmRequestTick _ sent => sent = true
  | .joinAckSenderTick _ ok | .joinFsmInflightTick _ ok | .unicastMessage _ _ ok
  | .handleTokenIfReady _ ok => ∀ k, ok k = true
  | _ => True

/-- Node `A`, alone in its ring with the empty token, reads the request of `B`
and a first record in one pass, and takes up the join; in the next pass, with
the join still in flight, it reads a second record. -/
def readTwiceDuringJoin : List Event :=
  [.joinAckSenderTick 10 (fun _ => true), .pruneJoins 10, .joinFsmRequestTick 10 true,
    .joinFsmInflightTick 10 (fun _ => true), .selectReady, .unicastIdle,
    .joinFsmMaybeComplete false,
    .broadcastMessage (.joinRequest ⟨7, NodeName.ofBytes [66], 5002⟩) 0 10,
    .cliRecord ⟨[1], NodeName.ofBytes [65], NodeName.ofBytes [66], 0, false⟩,
    .handleTokenIfReady 11 (fun _ => true),
    .joinAckSenderTick 11 (fun _ => true), .pruneJoins 11, .joinFsmRequestTick 11 true,
    .joinFsmInflightTick 11 (fun _ => true), .selectReady, .unicastIdle,
    .joinFsmMaybeComplete false, .broadcastIdle,
    .cliRecord ⟨[2], NodeName.ofBytes [65], NodeName.ofBytes [66], 0, false⟩]

theorem first_record_lost_during_join :
    ¬ ∀ (config : RouteConfig) (joined shouldStart : Bool) (requestId : UInt32)
      (events : List Event) (run : Node × List Effect),
      (∀ event ∈ events, event.SendsSucceed) →
      Lts.exec (Lts.logged Node.step) (Node.start config joined shouldStart requestId, [])
        events = some run → RecordsKept run := by
  intro h
  have hrun : (Lts.exec (Lts.logged Node.step) (Node.start ⟨⟨NodeName.ofBytes [65], 5001⟩,
      ⟨NodeName.ofBytes [65], 5001⟩, ⟨NodeName.ofBytes [65], 5001⟩⟩ true true 0, [])
      readTwiceDuringJoin).map (fun run => decide (recordsRead run.2 =
        recordsAttached run.2 ++ waitingRecord run.1.state)) = some false := by
    decide +kernel
  obtain ⟨run, hexec, hlost⟩ := Option.map_eq_some_iff.mp hrun
  have hsends : ∀ event ∈ readTwiceDuringJoin, event.SendsSucceed := by
    simp [readTwiceDuringJoin, Event.SendsSucceed]
  exact of_decide_eq_false hlost (h _ true true 0 _ run hsends hexec)

end TokenRing
