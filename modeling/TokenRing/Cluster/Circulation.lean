import TokenRing.CliQueue
import TokenRing.Cluster.Journey
import TokenRing.Forwarding

/-!
A ring in which nobody joins and every send succeeds. Its nodes do nothing but
read records and hand the token on, so its runs are those of the circulating
token, and each message reaches its receiver.
-/

namespace TokenRing

open CycleDistance

/-- A node that takes part in no join. -/
structure RingState.Calm (state : RingState) : Prop where
  joined : state.joined = true
  idle : state.joinInflight.active = false
  noneWaits : ∀ i, state.joinState.joins i = none
  countExact : JoinState.CountExact state.joinState
  silent : state.ackSender.active = false

/-- A step of a node that leaves the token alone. -/
structure Transition.Quiet (state : RingState) (event : Event) (state' : RingState)
    (out : List Effect) : Prop where
  noToken : event.isToken = false
  reads : ∀ effect ∈ out, ∃ record, effect = .cliRead record
  haveToken : state'.haveToken = state.haveToken
  tokenIn : state'.tokenIn = state.tokenIn

section Nodes

variable {state state' : RingState} {event : Event} {out : List Effect}

theorem RingState.Calm.shrink (h : state.Calm) {joinState : JoinState}
    (hshrinks : JoinState.Shrinks state.joinState joinState) :
    (∀ i, joinState.joins i = none) ∧ JoinState.CountExact joinState := by
  refine ⟨fun i => ?_, hshrinks.countExact h.countExact⟩
  cases hslot : joinState.joins i with
  | none => rfl
  | some pending =>
      have hold := hshrinks.within i pending hslot
      rw [h.noneWaits] at hold
      cases hold

theorem RingState.Calm.count (h : state.Calm) : ¬ state.joinState.count > 0 := by
  have hnone := (SlotTable.used_card_eq_zero state.joinState.joins).mpr h.noneWaits
  have hzero : state.joinState.count.toNat = 0 := by
    rw [JoinState.countExact_toNat h.countExact, hnone]
  intro hpos
  have hlt := UInt64.lt_iff_toNat_lt.mp hpos
  simp [hzero] at hlt

theorem quiet_nil (state : RingState) (hevent : event.isToken = false)
    (htoken : state'.haveToken = state.haveToken) (hin : state'.tokenIn = state.tokenIn) :
    Transition.Quiet state event state' [] :=
  ⟨hevent, by simp, htoken, hin⟩

/-- What a node that takes part in no join does when it gets tokens only. -/
theorem Transition.calm (h : Transition state event state' out) (hcalm : state.Calm)
    (hmsg : ∀ msg now ok, event = .unicastMessage msg now ok → ∃ token, msg = .token token)
    (hcast : ∀ msg ip now, event ≠ .broadcastMessage msg ip now) :
    state'.Calm ∧ state'.config = state.config ∧
      (Transition.Quiet state event state' out ∨
        (∃ token now ok, event = .unicastMessage (.token token) now ok ∧ out = [] ∧
          state'.haveToken = true ∧ state'.tokenIn = token) ∨
        ∃ now ok, event = .handleTokenIfReady now ok ∧ state.haveToken = true ∧
          (state', out) = ringOnToken state ok) := by
  have hnoJoin : ∀ {p : Prop}, state.joinInflight.active = true → p := by
    intro p hactive
    rw [hcalm.idle] at hactive
    cases hactive
  have hnoAck : ∀ {p : Prop}, state.ackSender.active = true → p := by
    intro p hactive
    rw [hcalm.silent] at hactive
    cases hactive
  have hnoRequest : ∀ {p : Prop}, state.joined = false → p := by
    intro p hunjoined
    rw [hcalm.joined] at hunjoined
    cases hunjoined
  cases h with
  | idle event hevent => exact ⟨hcalm, rfl, .inl (quiet_nil state hevent rfl rfl)⟩
  | requestSent now retries hunjoined => exact hnoRequest hunjoined
  | queueShrunk event hevent joinState hshrinks =>
      obtain ⟨hnone, hcount⟩ := hcalm.shrink hshrinks
      exact ⟨⟨hcalm.joined, hcalm.idle, hnone, hcount, hcalm.silent⟩, rfl,
        .inl (quiet_nil state hevent rfl rfl)⟩
  | senderChanged event hevent sender hsender =>
      have hsilent : sender.active = false := by
        cases hactive : sender.active with
        | false => rfl
        | true => exact hnoAck (hsender.active hactive)
      exact ⟨⟨hcalm.joined, hcalm.idle, hcalm.noneWaits, hcalm.countExact, hsilent⟩, rfl,
        .inl (quiet_nil state hevent rfl rfl)⟩
  | ackSent now ok sender hactive hgot hretries hsender => exact hnoAck hactive
  | acceptsSent now ok retries hactive => exact hnoJoin hactive
  | completed event hevent mid answers hactive hmid hprev hjoiner hanswers =>
      exact hnoJoin hactive
  | ackAnswered requestId fromName now ok answers hanswers =>
      obtain ⟨token, hwrong⟩ := hmsg _ _ _ rfl
      cases hwrong
  | confirmed fromName now ok answers hactive hanswers => exact hnoJoin hactive
  | tokenStored token now ok hunjoined => exact hnoRequest hunjoined
  | tokenTaken token now ok joinState hjoined hshrinks hempty =>
      obtain ⟨hnone, hcount⟩ := hcalm.shrink hshrinks
      exact ⟨⟨hcalm.joined, hcalm.idle, hnone, hcount, hcalm.silent⟩, rfl,
        .inr (.inl ⟨token, now, ok, rfl, rfl, rfl, rfl⟩)⟩
  | acceptJoined accept now ok joinState sentAt hshrinks hself hunjoined hid =>
      exact hnoRequest hunjoined
  | acceptLinked accept now ok joinState sentAt hshrinks hother hself hnext =>
      obtain ⟨token, hwrong⟩ := hmsg _ _ _ rfl
      cases hwrong
  | enqueued request ip now joinState hother hjoiner hcompleted hadd =>
      exact absurd rfl (hcast _ _ _)
  | commitSeen requestId newName topoVersion ip now joinState sender hshrinks hempty hsender
      hmatch =>
      exact absurd rfl (hcast _ _ _)
  | commitCompleted newName topoVersion ip now joinState sender hshrinks hempty hsender hactive =>
      exact hnoJoin hactive
  | recordRead record hempty =>
      refine ⟨⟨hcalm.joined, hcalm.idle, hcalm.noneWaits, hcalm.countExact, hcalm.silent⟩, rfl,
        .inl ⟨rfl, ?_, rfl, rfl⟩⟩
      intro effect hmem
      exact ⟨record, List.mem_singleton.mp hmem⟩
  | joinStarted now ok pending joinState hjoined htoken hidle hpop =>
      obtain ⟨i, hslot, _⟩ := JoinState.popOldestPendingJoin_some hpop
      rw [hcalm.noneWaits] at hslot
      cases hslot
  | forwarded now ok hjoined htoken hidle hcount =>
      obtain ⟨reports, sent, cliPending, haveCliPending, _, _, heq⟩ := ringOnToken_cases state ok
      refine ⟨?_, ?_, .inr (.inr ⟨now, ok, rfl, htoken, rfl⟩)⟩
      · rw [heq]
        exact ⟨hcalm.joined, hcalm.idle, hcalm.noneWaits, hcalm.countExact, hcalm.silent⟩
      · rw [heq]

end Nodes

variable {ι : Type*}

/-- What an effect of a node shows of the token. -/
def RingEvent.of (i : ι) : Effect → Option (RingEvent ι)
  | .unicast dst (.token token) true => some (.sent i dst token)
  | .received token => some (.received i token)
  | .attached record => some (.attached i record)
  | _ => none

def ringEvents (i : ι) (out : List Effect) : List (RingEvent ι) :=
  out.filterMap (RingEvent.of i)

/-- A step of the world, with the events of the token so far. -/
def World.loggedStep [Fintype ι] [DecidableEq ι] (run : World ι × List (RingEvent ι))
    (label : ι × Event) : Option (World ι × List (RingEvent ι)) :=
  match (run.1.node label.1).step label.2, run.1.step label with
  | some (_, out), some w => some (w, run.2 ++ ringEvents label.1 out)
  | _, _ => none

/-- The whole ring is calm and the one token is at this place. -/
structure World.HasPlace [DecidableEq ι] (w : World ι) (d : Deployment ι) (place : Place ι) :
    Prop where
  calm : ∀ i, (w.state i).Calm
  config : ∀ i, (w.state i).config = ⟨d.self i, d.self (d.next.symm i), d.self (d.next i)⟩
  quiet : w.announced = []
  holds : ∀ i, (w.state i).haveToken = true ↔ place.inHand = true ∧ i = place.node
  stored : place.inHand = true → (w.state place.node).tokenIn = place.token
  inbox : ∀ i, w.inbox i =
    if place.inHand = false ∧ i = place.node then [.token place.token] else []

section Steps

variable {d : Deployment ι} {w w' : World ι} {place : Place ι} {i : ι} {event : Event}
  {out : List Effect}

/-- One call of `ring_on_token` as a turn of node `i`: what it sends goes to the
next node. -/
structure TakesTurn (d : Deployment ι) (i : ι) (state : RingState)
    (result : RingState × List Effect) (sent : Token) : Prop where
  turn : Turn d i state.tokenIn (ringEvents i result.2) sent
  delivered : ∀ self, delivered self result.2 =
    if d.self (d.next i) = self then [.token sent] else []
  announced : announcements result.2 = []
  haveToken : result.1.haveToken = false

theorem takesTurn_of_reports {state after : RingState} {sent : Token} (reports : List Effect)
    (hreports : ∀ effect ∈ reports, (∃ token, effect = .received token) ∨
      ∃ record, effect = .attached record)
    (hafter : after.haveToken = false)
    (hturn : Turn d i state.tokenIn
      (ringEvents i (reports ++ [.unicast (d.self (d.next i)) (.token sent) true])) sent) :
    TakesTurn d i state
      (after, reports ++ [.unicast (d.self (d.next i)) (.token sent) true]) sent := by
  refine ⟨hturn, fun self => ?_, ?_, hafter⟩
  · have hnone : reports.filterMap (Effect.copyFor self) = [] := by
      apply List.filterMap_eq_nil_iff.mpr
      intro effect hmem
      rcases hreports effect hmem with ⟨_, rfl⟩ | ⟨_, rfl⟩ <;> rfl
    unfold TokenRing.delivered
    rw [List.filterMap_append, hnone, List.nil_append]
    by_cases hself : d.self (d.next i) = self
    · simp [Effect.copyFor, hself]
    · simp [Effect.copyFor, hself]
  · apply List.filterMap_eq_nil_iff.mpr
    intro effect hmem
    rcases List.mem_append.mp hmem with hreport | hsend
    · rcases hreports effect hreport with ⟨_, rfl⟩ | ⟨_, rfl⟩ <;> rfl
    · rw [List.mem_singleton.mp hsend]

/-- `ring_on_token` is a turn of the node. -/
theorem ringOnToken_turn {state : RingState} (ok : Nat → Bool)
    (hself : state.config.current = d.self i) (hnext : state.config.next = d.self (d.next i))
    (hok : ok 0 = true) : ∃ sent, TakesTurn d i state (ringOnToken state ok) sent := by
  cases hown : state.holdsOwn with
  | true =>
      obtain ⟨hfull, hreceiver⟩ : state.tokenIn.isEmpty = false ∧
          state.tokenIn.receiver = (d.self i).nodeName := by
        rw [← hself]
        simpa [RingState.holdsOwn] using hown
      cases hcli : state.haveCliPending with
      | false =>
          rw [ringOnToken_empties hown hcli, hok, hnext]
          refine ⟨state.emptied, takesTurn_of_reports [_] (by simp) rfl ?_⟩
          exact .empties state.emptied hfull hreceiver rfl
      | true =>
          rw [ringOnToken_replaces hown hcli, hok, hnext]
          refine ⟨state.record, takesTurn_of_reports [_, _] (by simp) rfl ?_⟩
          exact .refills state.cliPending state.lastSeenTopoVersion hfull hreceiver
  | false =>
      by_cases hattach : state.tokenIn.isEmpty = true ∧ state.haveCliPending = true
      · obtain ⟨hempty, hcli⟩ := hattach
        rw [ringOnToken_attaches hempty hcli, hok, hnext]
        refine ⟨state.record, takesTurn_of_reports [_] (by simp) rfl ?_⟩
        exact .fills state.cliPending state.lastSeenTopoVersion hempty
      · have hno : state.haveCliPending = false ∨ state.tokenIn.isEmpty = false := by
          cases hcli : state.haveCliPending with
          | false => exact .inl rfl
          | true =>
              cases hempty : state.tokenIn.isEmpty with
              | false => exact .inr rfl
              | true => exact absurd ⟨hempty, hcli⟩ hattach
        rw [ringOnToken_passes hown hno, hok, hnext]
        refine ⟨state.tokenIn, takesTurn_of_reports [] (by simp) rfl ?_⟩
        apply Turn.passes
        rw [← hself]
        rintro ⟨hfull, hreceiver⟩
        simp [RingState.holdsOwn, hfull, hreceiver] at hown

/-- A quiet step puts nothing into an inbox and nothing on the air. -/
theorem quiet_outputs (hreads : ∀ effect ∈ out, ∃ record, effect = .cliRead record) :
    (∀ self, delivered self out = []) ∧ announcements out = [] ∧ ringEvents i out = [] := by
  refine ⟨fun self => ?_, ?_, ?_⟩ <;>
  · apply List.filterMap_eq_nil_iff.mpr
    intro effect hmem
    obtain ⟨record, rfl⟩ := hreads effect hmem
    rfl

/-- Where a step of a calm ring puts the token. -/
inductive World.MovesTo (d : Deployment ι) (place : Place ι) (i : ι) (event : Event)
    (events : List (RingEvent ι)) : Place ι → Prop where
  | stays (hevent : event.isToken = false) (hevents : events = []) :
      MovesTo d place i event events place
  | arrives (hevent : event.isToken = true) (hevents : events = [])
      (hway : place.inHand = false) :
      MovesTo d place i event events { place with inHand := true }
  | leaves (sent : Token) (hevent : event.isToken = false) (hhand : place.inHand = true)
      (hnode : i = place.node) (hturn : Turn d i place.token events sent) :
      MovesTo d place i event events ⟨d.next i, false, sent⟩

theorem World.MovesTo.circulates {place' : Place ι} {log events : List (RingEvent ι)}
    (h : World.MovesTo d place i event events place') (hcirculates : Circulates d place log) :
    Circulates d place' (log ++ events) := by
  obtain ⟨node, inHand, token⟩ := place
  cases h with
  | stays hevent hevents =>
      rw [hevents, List.append_nil]
      exact hcirculates
  | arrives hevent hevents hway =>
      cases hway
      rw [hevents, List.append_nil]
      exact hcirculates.arrives
  | leaves sent hevent hhand hnode hturn =>
      cases hhand
      cases hnode
      exact hcirculates.leaves hturn

variable [DecidableEq ι]

/-- The messages that can reach a node of a calm ring. -/
theorem World.HasPlace.offers_token (h : w.HasPlace d place) (hoffers : w.Offers i event)
    {msg : UnicastMsg} {now : Int} {ok : Nat → Bool} (hevent : event = .unicastMessage msg now ok) :
    place.inHand = false ∧ i = place.node ∧ msg = .token place.token := by
  subst hevent
  have hmem : msg ∈ w.inbox i := hoffers
  rw [h.inbox] at hmem
  split at hmem
  · rename_i hhere
    exact ⟨hhere.1, hhere.2, List.mem_singleton.mp hmem⟩
  · cases hmem

/-- The parts of a step that are the same whatever the node does. -/
theorem World.HasPlace.of_step (h : w.HasPlace d place) (hmoves : w.Moves i event out w')
    (hcalm : (w'.state i).Calm) (hconfig : (w'.state i).config = (w.state i).config)
    (hannounced : announcements out = []) {place' : Place ι}
    (hholds : ∀ j, (w'.state j).haveToken = true ↔ place'.inHand = true ∧ j = place'.node)
    (hstored : place'.inHand = true → (w'.state place'.node).tokenIn = place'.token)
    (hinbox : ∀ j, w'.inbox j =
      if place'.inHand = false ∧ j = place'.node then [.token place'.token] else []) :
    w'.HasPlace d place' := by
  constructor
  · intro j
    by_cases hj : j = i
    · rwa [hj]
    · rw [hmoves.others j hj]
      exact h.calm j
  · intro j
    by_cases hj : j = i
    · rw [hj, hconfig]
      exact h.config i
    · rw [hmoves.others j hj]
      exact h.config j
  · rw [hmoves.announced, h.quiet, hannounced]
    rfl
  · exact hholds
  · exact hstored
  · exact hinbox

/-- A step that leaves the token alone. -/
theorem World.HasPlace.stays (h : w.HasPlace d place) (hmoves : w.Moves i event out w')
    (hcalm : (w'.state i).Calm) (hconfig : (w'.state i).config = (w.state i).config)
    (hquiet : Transition.Quiet (w.state i) event (w'.state i) out) : w'.HasPlace d place := by
  obtain ⟨hdelivered, hannounced, hevents⟩ := quiet_outputs (i := i) hquiet.reads
  refine h.of_step hmoves hcalm hconfig hannounced ?_ ?_ ?_
  · intro j
    rw [← h.holds j]
    by_cases hj : j = i
    · rw [hj, hquiet.haveToken]
    · rw [hmoves.others j hj]
  · intro hhand
    by_cases hj : place.node = i
    · rw [hj, hquiet.tokenIn, ← hj]
      exact h.stored hhand
    · rw [hmoves.others _ hj]
      exact h.stored hhand
  · intro j
    by_cases hj : j = i
    · subst hj
      rw [hmoves.inbox_self, hdelivered, List.append_nil, ← h.inbox]
      cases event with
      | unicastMessage msg now ok =>
          obtain ⟨_, _, rfl⟩ := h.offers_token hmoves.offers rfl
          cases hquiet.noToken
      | _ => rfl
    · rw [hmoves.inbox_other j hj, hdelivered, List.append_nil, h.inbox]

/-- The node at which the token was to arrive takes it. -/
theorem World.HasPlace.arrives {now : Int} {ok : Nat → Bool} (h : w.HasPlace d place)
    (hmoves : w.Moves place.node (.unicastMessage (.token place.token) now ok) [] w')
    (hcalm : (w'.state place.node).Calm)
    (hconfig : (w'.state place.node).config = (w.state place.node).config)
    (hway : place.inHand = false) (htaken : (w'.state place.node).haveToken = true)
    (hin : (w'.state place.node).tokenIn = place.token) :
    w'.HasPlace d { place with inHand := true } := by
  refine h.of_step hmoves hcalm hconfig rfl ?_ (fun _ => hin) ?_
  · intro j
    by_cases hj : j = place.node
    · simp [hj, htaken]
    · rw [hmoves.others j hj, h.holds j]
      simp [hj]
  · intro j
    by_cases hj : j = place.node
    · subst hj
      rw [hmoves.inbox_self, h.inbox]
      simp [Event.takeFrom, hway, delivered]
    · rw [hmoves.inbox_other j hj, h.inbox]
      simp [hj, delivered]

/-- The node with the token passes it to the next one. -/
theorem World.HasPlace.leaves {now : Int} {ok : Nat → Bool} {sent : Token}
    (h : w.HasPlace d place)
    (hmoves : w.Moves place.node (.handleTokenIfReady now ok) out w')
    (hcalm : (w'.state place.node).Calm)
    (hconfig : (w'.state place.node).config = (w.state place.node).config)
    (hhand : place.inHand = true)
    (hturn : TakesTurn d place.node (w.state place.node) (w'.state place.node, out) sent) :
    w'.HasPlace d ⟨d.next place.node, false, sent⟩ := by
  have hgone : (w'.state place.node).haveToken = false := hturn.haveToken
  refine h.of_step hmoves hcalm hconfig hturn.announced ?_ (by simp) ?_
  · intro j
    by_cases hj : j = place.node
    · simp [hj, hgone]
    · rw [hmoves.others j hj, h.holds j]
      simp [hj]
  · intro j
    have hroute : d.self (d.next place.node) = d.self j ↔ j = d.next place.node := by
      constructor
      · intro hsame
        exact (d.names_distinct _ _ (congrArg Route.nodeName hsame)).symm
      · rintro rfl
        rfl
    have hcurrent : (w.state j).config.current = d.self j := by rw [h.config j]
    by_cases hj : j = place.node
    · subst hj
      rw [hmoves.inbox_self, h.inbox, hcurrent, hturn.delivered]
      simp [Event.takeFrom, hhand, hroute]
    · rw [hmoves.inbox_other j hj, h.inbox, hcurrent, hturn.delivered]
      simp [hhand, hroute]

/-- Every step of a calm ring. -/
theorem World.HasPlace.step (h : w.HasPlace d place) (hmoves : w.Moves i event out w')
    (hsends : event.SendsSucceed) :
    ∃ place', w'.HasPlace d place' ∧
      World.MovesTo d place i event (ringEvents i out) place' := by
  have hmsg : ∀ msg now ok, event = .unicastMessage msg now ok →
      ∃ token, msg = .token token := by
    intro msg now ok hevent
    exact ⟨place.token, (h.offers_token hmoves.offers hevent).2.2⟩
  have hcast : ∀ msg ip now, event ≠ .broadcastMessage msg ip now := by
    rintro msg ip now rfl
    have hmem : msg ∈ w.announced := hmoves.offers
    rw [h.quiet] at hmem
    cases hmem
  obtain ⟨hcalm, hconfig, hquiet | ⟨token, now, ok, hevent, hout, htaken, hin⟩ |
    ⟨now, ok, hevent, htoken, hring⟩⟩ := hmoves.transition.calm (h.calm i) hmsg hcast
  · exact ⟨place, h.stays hmoves hcalm hconfig hquiet,
      .stays hquiet.noToken (quiet_outputs (i := i) hquiet.reads).2.2⟩
  · subst hevent hout
    obtain ⟨hway, hnode, hsame⟩ := h.offers_token hmoves.offers rfl
    cases hsame
    subst hnode
    exact ⟨{ place with inHand := true }, h.arrives hmoves hcalm hconfig hway htaken hin,
      .arrives rfl rfl hway⟩
  · subst hevent
    obtain ⟨hhand, hnode⟩ := (h.holds i).mp htoken
    subst hnode
    have hself : (w.state place.node).config.current = d.self place.node := by
      rw [h.config place.node]
    have hnext : (w.state place.node).config.next = d.self (d.next place.node) := by
      rw [h.config place.node]
    obtain ⟨sent, hturn⟩ := ringOnToken_turn ok hself hnext (hsends 0)
    rw [← hring] at hturn
    have hevents := hturn.turn
    rw [h.stored hhand] at hevents
    exact ⟨⟨d.next place.node, false, sent⟩, h.leaves hmoves hcalm hconfig hhand hturn,
      .leaves sent rfl hhand rfl hevents⟩

theorem hasPlace_start (hall : ∀ i, d.member i = true) :
    d.start.HasPlace d ⟨d.starter, true, firstToken⟩ := by
  have hstate : ∀ i, d.start.state i =
      maybeSendInitialToken (RingState.init (d.config i) true) (decide (i = d.starter)) := by
    intro i
    simp [Deployment.start, World.state, Node.start, hall]
  have hconfig : ∀ i, d.config i =
      ⟨d.self i, d.self (d.next.symm i), d.self (d.next i)⟩ := by
    intro i
    simp [Deployment.config, hall]
  constructor
  · intro i
    rw [hstate]
    cases decide (i = d.starter) <;>
      exact ⟨rfl, rfl, fun _ => rfl, JoinState.countExact_zero, rfl⟩
  · intro i
    rw [hstate, ← hconfig]
    cases decide (i = d.starter) <;> rfl
  · rfl
  · intro i
    rw [hstate]
    by_cases hi : i = d.starter
    · simp [hi, maybeSendInitialToken, RingState.init]
    · simp [hi, maybeSendInitialToken, RingState.init]
  · intro _
    rw [hstate]
    simp [maybeSendInitialToken, RingState.init, firstToken]
  · intro i
    simp [Deployment.start]

variable [Fintype ι]

theorem World.loggedStep_some {run run' : World ι × List (RingEvent ι)} {label : ι × Event}
    (h : World.loggedStep run label = some run') :
    ∃ out, run.1.Moves label.1 label.2 out run'.1 ∧ run'.2 = run.2 ++ ringEvents label.1 out := by
  unfold World.loggedStep at h
  split at h
  · rename_i node out w hnode hstep
    cases h
    exact ⟨out, World.moves_of_node_step hnode hstep, rfl⟩
  · cases h

/-- Every send succeeds. -/
def SendsSucceed (_ : World ι × List (RingEvent ι)) (label : ι × Event) : Prop :=
  label.2.SendsSucceed

/-- The runs of a ring in which nobody joins are those of the token. -/
theorem circulates_of_reaches (hall : ∀ i, d.member i = true)
    {run : World ι × List (RingEvent ι)}
    (h : Lts.Reaches World.loggedStep SendsSucceed (d.start, []) run) :
    ∃ place, run.1.HasPlace d place ∧ Circulates d place run.2 := by
  refine h.invariant (fun run => ∃ place, run.1.HasPlace d place ∧ Circulates d place run.2)
    ⟨_, hasPlace_start hall, .start⟩ ?_
  rintro now label later ⟨place, hplace, hcirculates⟩ hsends hstep
  obtain ⟨out, hmoves, hlog⟩ := World.loggedStep_some hstep
  obtain ⟨place', hplace', hto⟩ := hplace.step hmoves hsends
  rw [hlog]
  exact ⟨place', hplace', hto.circulates hcirculates⟩

end Steps

end TokenRing
