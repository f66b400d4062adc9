import TokenRing.Cluster.Circulation
import TokenRing.Cluster.Token

/-!
A ring in which nobody joins brings each message to its receiver. The events
say what can happen to the message; the event loops say that it does.
-/

namespace TokenRing

open CycleDistance

variable {ι : Type*} [DecidableEq ι] [Fintype ι] {d : Deployment ι} {w : World ι}
  {place : Place ι} {i : ι} {run : World ι × List (RingEvent ι)}

section Loops

/-- What a node does at a program point when nothing is to be read, at the time
`now`. -/
def Loc.quietEvent (now : Int) : Loc → Event
  | .requestInit | .requestTick => .joinFsmRequestTick now true
  | .ackSender => .joinAckSenderTick now (fun _ => true)
  | .prune => .pruneJoins now
  | .inflightTick => .joinFsmInflightTick now (fun _ => true)
  | .selectResult => .selectReady
  | .unicast => .unicastIdle
  | .unicastComplete | .complete => .joinFsmMaybeComplete false
  | .broadcast => .broadcastIdle
  | .cli => .cliIdle
  | .token => .handleTokenIfReady now (fun _ => true)
  | .stopped => .selectFailed

/-- The program points up to the next one at which the token is received. -/
def Loc.toUnicast : Loc → Nat
  | .unicast => 0
  | .selectResult => 1
  | .inflightTick => 2
  | .requestTick => 3
  | .prune => 4
  | .ackSender => 5
  | .requestInit | .token => 6
  | .cli => 7
  | .broadcast => 8
  | .complete => 9
  | .unicastComplete => 10
  | .stopped => 11

/-- The program points up to the next one at which the token is passed on. -/
def Loc.toToken : Loc → Nat
  | .token => 0
  | .cli => 1
  | .broadcast => 2
  | .complete => 3
  | .unicast | .unicastComplete => 4
  | .selectResult => 5
  | .inflightTick => 6
  | .requestTick => 7
  | .prune => 8
  | .ackSender => 9
  | .requestInit => 10
  | .stopped => 11

theorem Loc.quietEvent_goesTo (now : Int) {loc : Loc} (h : loc ≠ .stopped) :
    ∃ after, (loc.quietEvent now).goesTo loc = some after ∧ after ≠ .stopped ∧
      (loc ≠ .unicast → after.toUnicast < loc.toUnicast) ∧
      (loc ≠ .token → after.toToken < loc.toToken) := by
  cases loc with
  | stopped => exact absurd rfl h
  | _ => exact ⟨_, rfl, by decide, by decide, by decide⟩

/-- A calm node without the token shows nothing. -/
theorem Loc.quietEvent_handle (now : Int) {loc : Loc} {state : RingState} (hcalm : state.Calm)
    (hloc : loc ≠ .stopped) (htoken : loc = .token → state.haveToken = false) :
    ∃ after, (loc.quietEvent now).handle state = some (after, []) := by
  cases loc with
  | requestInit | requestTick =>
      exact ⟨state, by simp [Loc.quietEvent, Event.handle, joinFsmRequestTick, hcalm.joined]⟩
  | ackSender =>
      exact ⟨state, by simp [Loc.quietEvent, Event.handle, joinAckSenderTick, hcalm.silent]⟩
  | prune => exact ⟨_, rfl⟩
  | inflightTick =>
      exact ⟨state, by simp [Loc.quietEvent, Event.handle, joinFsmInflightTick, hcalm.idle]⟩
  | selectResult | unicast | broadcast | cli => exact ⟨state, rfl⟩
  | unicastComplete | complete =>
      exact ⟨state, by simp [Loc.quietEvent, Event.handle, joinFsmTryComplete, hcalm.idle]⟩
  | token =>
      exact ⟨state, by simp [Loc.quietEvent, Event.handle, handleTokenIfReady, htoken rfl]⟩
  | stopped => exact absurd rfl hloc

theorem Loc.quietEvent_sends (now : Int) (loc : Loc) : (loc.quietEvent now).SendsSucceed := by
  cases loc <;> simp [Loc.quietEvent, Event.SendsSucceed]

theorem exists_loggedStep {event : Event} {node : Node} {out : List Effect}
    (hnode : (run.1.node i).step event = some (node, out)) (hoffers : run.1.Offers i event)
    (haddressed : run.1.Addressed out) :
    ∃ w', World.loggedStep run (i, event) = some (w', run.2 ++ ringEvents i out) ∧
      run.1.Moves i event out w' ∧ w'.node = Function.update run.1.node i node := by
  have hstep : ∃ w', run.1.step (i, event) = some w' ∧
      w'.node = Function.update run.1.node i node := by
    simp [World.step, hnode, hoffers, haddressed]
  obtain ⟨w', hstep, hupdate⟩ := hstep
  refine ⟨w', ?_, World.moves_of_node_step hnode hstep, hupdate⟩
  simp [World.loggedStep, hnode, hstep]

/-- No node has left its loop. -/
def World.Running (w : World ι) : Prop := ∀ i, (w.node i).loc ≠ .stopped

omit [Fintype ι] in
theorem World.Running.update {w' : World ι} {node : Node} (h : w.Running)
    (hupdate : w'.node = Function.update w.node i node) (hnode : node.loc ≠ .stopped) :
    w'.Running := by
  intro j
  rw [hupdate, Function.update_apply]
  split
  · exact hnode
  · exact h j

/-- One quiet step of the node at which the token is, or to which it goes. -/
theorem exists_quietStep (hplace : run.1.HasPlace d place) (hrunning : run.1.Running)
    (htoken : (run.1.node place.node).loc = .token → place.inHand = false) :
    ∃ w' after, SendsSucceed run (place.node, (run.1.node place.node).loc.quietEvent 0) ∧
      World.loggedStep run (place.node, (run.1.node place.node).loc.quietEvent 0) =
        some (w', run.2) ∧ w'.HasPlace d place ∧ w'.Running ∧
      ((run.1.node place.node).loc.quietEvent 0).goesTo (run.1.node place.node).loc = some after ∧
      (w'.node place.node).loc = after := by
  have hloc := hrunning place.node
  have hsends := (run.1.node place.node).loc.quietEvent_sends 0
  obtain ⟨after, hgoes, hafter, _, _⟩ := Loc.quietEvent_goesTo 0 hloc
  obtain ⟨state, hhandle⟩ := Loc.quietEvent_handle 0 (hplace.calm place.node) hloc (by
    intro hat
    have hnot := htoken hat
    cases hheld : (run.1.state place.node).haveToken with
    | false => rfl
    | true =>
        have hhand := ((hplace.holds place.node).mp hheld).1
        rw [hnot] at hhand
        cases hhand)
  have hnode : (run.1.node place.node).step ((run.1.node place.node).loc.quietEvent 0) =
      some (⟨state, after⟩, []) := by
    simp only [Node.step, hgoes]
    rw [show (run.1.node place.node).state = run.1.state place.node from rfl, hhandle]
  have hoffers : run.1.Offers place.node ((run.1.node place.node).loc.quietEvent 0) := by
    cases (run.1.node place.node).loc <;> trivial
  obtain ⟨w', hstep, hmoves, hupdate⟩ := exists_loggedStep hnode hoffers (by
    intro dst hmem
    cases hmem)
  have hquiet : ((run.1.node place.node).loc.quietEvent 0).isToken = false := by
    cases (run.1.node place.node).loc <;> rfl
  rw [show run.2 ++ ringEvents place.node [] = run.2 from List.append_nil _] at hstep
  refine ⟨w', after, hsends, hstep, ?_, hrunning.update hupdate hafter, hgoes, ?_⟩
  · obtain ⟨place', hplace', hto⟩ := hplace.step hmoves hsends
    cases hto with
    | stays hevent hevents => exact hplace'
    | arrives hevent hevents hway =>
        rw [hquiet] at hevent
        cases hevent
    | leaves sent hevent hhand hnode hturn => cases hturn
  · rw [hupdate, Function.update_self]

/-- The loop of the node comes to a program point at which the token can be
received or passed on. -/
theorem exists_walk (target : Loc) (rank : Loc → Nat)
    (hrank : ∀ loc after, loc ≠ .stopped → (loc.quietEvent 0).goesTo loc = some after →
      loc ≠ target → rank after < rank loc)
    (htarget : target = .token ∨ place.inHand = false)
    (hplace : run.1.HasPlace d place) (hrunning : run.1.Running) :
    ∃ later, Lts.Reaches World.loggedStep SendsSucceed run later ∧ later.2 = run.2 ∧
      later.1.HasPlace d place ∧ later.1.Running ∧ (later.1.node place.node).loc = target := by
  have hwalk : ∃ later, Lts.Reaches World.loggedStep SendsSucceed run later ∧
      (later.2 = run.2 ∧ later.1.HasPlace d place ∧ later.1.Running) ∧
        (later.1.node place.node).loc = target := by
    apply Lts.exists_reaches_of_measure (fun now => rank (now.1.node place.node).loc)
    · rintro now ⟨hlog, hnow, hrunning⟩ hnot
      obtain ⟨w', after, hsends, hstep, hplace', hrunning', hgoes, hafter⟩ :=
        exists_quietStep hnow hrunning (by
          intro hat
          rcases htarget with rfl | hway
          · exact absurd hat hnot
          · exact hway)
      refine ⟨_, _, hsends, hstep, ⟨hlog, hplace', hrunning'⟩, ?_⟩
      simp only [hafter]
      exact hrank _ _ (hrunning place.node) hgoes hnot
    · exact ⟨rfl, hplace, hrunning⟩
  obtain ⟨later, hreach, ⟨hlog, hlater, hrunning'⟩, hat⟩ := hwalk
  exact ⟨later, hreach, hlog, hlater, hrunning', hat⟩

/-- The token on its way arrives. -/
theorem exists_arrival {token : Token} (hplace : run.1.HasPlace d ⟨i, false, token⟩)
    (hrunning : run.1.Running) :
    ∃ later, Lts.Reaches World.loggedStep SendsSucceed run later ∧ later.2 = run.2 ∧
      later.1.HasPlace d ⟨i, true, token⟩ ∧ later.1.Running := by
  obtain ⟨later, hreach, hlog, hplace, hrunning, hat⟩ :=
    exists_walk .unicast Loc.toUnicast (by
      intro loc after hloc hgoes hnot
      obtain ⟨next, hnext, _, hless, _⟩ := Loc.quietEvent_goesTo 0 hloc
      rw [hnext] at hgoes
      cases hgoes
      exact hless hnot) (.inr rfl) hplace hrunning
  have hnode : (later.1.node i).step (.unicastMessage (.token token) 0 (fun _ => true)) =
      some (⟨handleTokenUnicast (later.1.state i) token, .unicastComplete⟩, []) := by
    simp only at hat
    simp only [Node.step, hat]
    rfl
  have hoffers : later.1.Offers i (.unicastMessage (.token token) 0 (fun _ => true)) := by
    change .token token ∈ later.1.inbox i
    simp [hplace.inbox i]
  obtain ⟨w', hstep, hmoves, hupdate⟩ := exists_loggedStep hnode hoffers (by
    intro dst hmem
    cases hmem)
  have hsends : SendsSucceed later (i, .unicastMessage (.token token) 0 (fun _ => true)) :=
    fun _ => rfl
  rw [show later.2 ++ ringEvents i [] = later.2 from List.append_nil _] at hstep
  refine ⟨(w', later.2), hreach.tail hsends hstep, hlog, ?_,
    hrunning.update hupdate (by simp)⟩
  obtain ⟨place', hplace', hto⟩ := hplace.step hmoves hsends
  cases hto with
  | stays hevent hevents => cases hevent
  | arrives hevent hevents hway => exact hplace'
  | leaves sent hevent hhand hnode hturn => cases hevent

/-- A calm holder of the token forwards it when `ring_run` gets there. -/
theorem forwarding_step {node : Node} (hcalm : node.state.Calm) (hat : node.loc = .token)
    (hheld : node.state.haveToken = true) (ok : Nat → Bool) :
    node.step (.handleTokenIfReady 0 ok) =
      some (⟨(ringOnToken node.state ok).1, .ackSender⟩, (ringOnToken node.state ok).2) := by
  have hhandle : (Event.handleTokenIfReady 0 ok).handle node.state =
      some (ringOnToken node.state ok) := by
    apply congrArg some
    rw [handleTokenIfReady, if_neg (by simp [hcalm.joined, hheld]), if_neg (by simp [hcalm.idle]),
      if_neg hcalm.count]
  have hgoes : (Event.handleTokenIfReady 0 ok).goesTo node.loc = some .ackSender := by
    rw [hat]
    rfl
  simp only [Node.step, hgoes, hhandle]

omit [DecidableEq ι] [Fintype ι] in
/-- The token goes to the route of the successor. -/
theorem World.addressed_ringOnToken {w : World ι} {state : RingState} {ok : Nat → Bool}
    (hnext : ∃ j, state.config.next = (w.state j).config.current) :
    w.Addressed (ringOnToken state ok).2 := by
  obtain ⟨reports, out, _, _, hreports, _, heq⟩ := ringOnToken_cases state ok
  intro dst hmem
  rw [heq] at hmem
  obtain ⟨effect, hmem, hreached⟩ := List.mem_filterMap.mp hmem
  rcases List.mem_append.mp hmem with hreport | hsend
  · rcases hreports effect hreport with ⟨_, rfl⟩ | ⟨_, rfl⟩ <;> cases hreached
  · rw [List.mem_singleton.mp hsend] at hreached
    cases hok : ok 0 with
    | false =>
        rw [hok] at hreached
        cases hreached
    | true =>
        rw [hok] at hreached
        cases hreached
        obtain ⟨j, hj⟩ := hnext
        exact ⟨j, hj.symm⟩

/-- The node with the token takes its turn. -/
theorem exists_turn {token : Token} (hplace : run.1.HasPlace d ⟨i, true, token⟩)
    (hrunning : run.1.Running) :
    ∃ later events sent, Lts.Reaches World.loggedStep SendsSucceed run later ∧
      Turn d i token events sent ∧ later.2 = run.2 ++ events ∧
      later.1.HasPlace d ⟨d.next i, false, sent⟩ ∧ later.1.Running := by
  obtain ⟨later, hreach, hlog, hplace, hrunning, hat⟩ :=
    exists_walk .token Loc.toToken (by
      intro loc after hloc hgoes hnot
      obtain ⟨next, hnext, _, _, hless⟩ := Loc.quietEvent_goesTo 0 hloc
      rw [hnext] at hgoes
      cases hgoes
      exact hless hnot) (.inl rfl) hplace hrunning
  have hheld : (later.1.state i).haveToken = true := (hplace.holds i).mpr ⟨rfl, rfl⟩
  have hnode := forwarding_step (hplace.calm i) hat hheld (fun _ => true)
  have hself : (later.1.state i).config.current = d.self i := by rw [hplace.config i]
  have hnext : (later.1.state i).config.next = d.self (d.next i) := by rw [hplace.config i]
  have haddressed : later.1.Addressed (ringOnToken (later.1.state i) (fun _ => true)).2 :=
    World.addressed_ringOnToken ⟨d.next i, hnext.trans (by rw [hplace.config])⟩
  obtain ⟨w', hstep, hmoves, hupdate⟩ := exists_loggedStep hnode trivial haddressed
  have hsends : SendsSucceed later (i, .handleTokenIfReady 0 (fun _ => true)) := fun _ => rfl
  obtain ⟨sent, hturn⟩ := ringOnToken_turn (fun _ => true) hself hnext rfl
  obtain ⟨place', hplace', hto⟩ := hplace.step hmoves hsends
  cases hto with
  | stays hevent hevents =>
      have hgone : (w'.state i).haveToken = false := by
        rw [World.state, hupdate, Function.update_self]
        exact hturn.haveToken
      have hstill := (hplace'.holds i).mpr ⟨rfl, rfl⟩
      rw [hgone] at hstill
      cases hstill
  | arrives hevent hevents hway => cases hevent
  | leaves sent hevent hhand hnode hturn =>
      exact ⟨_, _, sent, hreach.tail hsends hstep, hturn, by rw [hlog], hplace',
        hrunning.update hupdate (by simp)⟩

/-- From any place the node there takes its turn. -/
theorem exists_next_turn {inHand : Bool} {token : Token}
    (hplace : run.1.HasPlace d ⟨i, inHand, token⟩) (hrunning : run.1.Running) :
    ∃ later events sent, Lts.Reaches World.loggedStep SendsSucceed run later ∧
      Turn d i token events sent ∧ later.2 = run.2 ++ events ∧
      later.1.HasPlace d ⟨d.next i, false, sent⟩ ∧ later.1.Running := by
  cases inHand with
  | true => exact exists_turn hplace hrunning
  | false =>
      obtain ⟨mid, hfirst, hlog, hplace, hrunning⟩ := exists_arrival hplace hrunning
      obtain ⟨later, events, sent, hsecond, hturn, hlater, hplace', hrunning'⟩ :=
        exists_turn hplace hrunning
      exact ⟨later, events, sent, hfirst.trans hsecond, hturn, by rw [hlater, hlog], hplace',
        hrunning'⟩

/-- A message under way is brought to its receiver. -/
theorem exists_delivered (log : List (RingEvent ι)) (token : Token) {a r : ι} {hops k : Nat}
    {inHand : Bool} (hdist : Distance d.next a r hops)
    (hfull : token.isEmpty = false) (hreceiver : token.receiver = (d.self r).nodeName)
    (hpos : 0 < k) (hle : k ≤ hops)
    (hplace : run.1.HasPlace d ⟨(d.next ^ k) a, inHand, token⟩) (hrunning : run.1.Running)
    (hlog : run.2 = log ++ journey d a token k) :
    ∃ later rest, Lts.Reaches World.loggedStep SendsSucceed run later ∧
      later.2 = log ++ (journey d a token hops ++ .received r token :: rest) := by
  induction hleft : hops - k generalizing run k inHand with
  | zero =>
      obtain rfl : k = hops := by omega
      obtain ⟨later, events, sent, hreach, hturn, hlater, _, _⟩ :=
        exists_next_turn hplace hrunning
      rw [hdist.arrives] at hturn
      obtain ⟨passed, rfl, _⟩ := hturn.at_receiver hfull hreceiver
      exact ⟨later, passed, hreach, by rw [hlater, hlog, List.append_assoc]⟩
  | succ left ih =>
      have hlt : k < hops := by omega
      obtain ⟨mid, events, sent, hfirst, hturn, hmid, hplace', hrunning'⟩ :=
        exists_next_turn hplace hrunning
      obtain ⟨rfl, rfl⟩ := hturn.on_way hfull (receiver_ne hdist hreceiver hpos hlt)
      rw [← pow_succ_apply] at hplace'
      obtain ⟨later, rest, hsecond, hlater⟩ := ih (Nat.succ_pos k) hlt hplace' hrunning'
        (by rw [hmid, hlog, journey_succ, List.append_assoc]) (by omega)
      exact ⟨later, rest, hfirst.trans hsecond, hlater⟩

end Loops

omit [DecidableEq ι] [Fintype ι] in
theorem Deployment.ring_univ (d : Deployment ι) (hall : ∀ i, d.member i = true) :
    d.next.IsCycleOn Set.univ := by
  have hset : {i | d.member i = true} = Set.univ := Set.eq_univ_of_forall hall
  rw [← hset]
  exact d.ring

section Messages

variable {a r : ι} {record token : Token} {before after : List (RingEvent ι)} {hops : Nat}

theorem delivered_of_fate (token : Token) {place : Place ι} (hdist : Distance d.next a r hops)
    (hfull : token.isEmpty = false) (hreceiver : token.receiver = (d.self r).nodeName)
    (hfate : Fate d a r token hops place after) (hplace : run.1.HasPlace d place)
    (hlog : run.2 = before ++ .attached a record :: after) (hrunning : run.1.Running) :
    ∃ later rest, Lts.Reaches World.loggedStep SendsSucceed run later ∧
      later.2 = before ++ .attached a record ::
        (journey d a token hops ++ .received r token :: rest) := by
  cases hfate with
  | underWay k inHand hpos hle =>
      obtain ⟨later, rest, hreach, hlater⟩ := exists_delivered (before ++ [.attached a record])
        token hdist hfull hreceiver hpos hle hplace hrunning (by simpa using hlog)
      exact ⟨later, rest, hreach, by simpa using hlater⟩
  | delivered place passed rest hpassed hcleared hempty => exact ⟨run, _, .refl, hlog⟩

/-- In a ring of members that nobody joins, with all sends succeeding, in every
run: a message that `a` attached for `r` goes from node to node unchanged, and
after the sends from `a` to `r`, once around if they are one, `r` reports it and
passes the token on. While no node leaves its loop it can always get there. -/
theorem message_reaches_receiver (d : Deployment ι) (hall : ∀ i, d.member i = true)
    (h : Lts.Reaches World.loggedStep SendsSucceed (d.start, []) run)
    (hlog : run.2 = before ++ .attached a record :: after)
    (hfull : record.isEmpty = false) (hreceiver : record.receiver = (d.self r).nodeName) :
    ∃ hops version, Distance d.next a r hops ∧ (a = r → hops = Fintype.card ι) ∧
      Delivery d a r (record.withVersion version) hops after ∧
      (run.1.Running → ∃ later rest, Lts.Reaches World.loggedStep SendsSucceed run later ∧
        later.2 = before ++ .attached a record ::
          (journey d a (record.withVersion version) hops ++
            .received r (record.withVersion version) :: rest)) := by
  have hring := d.ring_univ hall
  obtain ⟨hops, hdist, _⟩ := exists_distance hring a r
  obtain ⟨place, hplace, hcirculates⟩ := circulates_of_reaches hall h
  obtain ⟨version, hfate⟩ := hcirculates.fate hlog hdist hfull hreceiver
  refine ⟨hops, version, hdist, ?_, hfate.delivery, ?_⟩
  · rintro rfl
    exact hdist.self hring
  · exact delivered_of_fate (record.withVersion version) hdist hfull hreceiver hfate hplace hlog

/-- Two members, `A` with the token. -/
def Deployment.duo : Deployment (Fin 2) where
  self := letterNode
  member _ := true
  next := Equiv.swap 0 1
  starter := 0
  requestId _ := 0
  names_distinct := twoLetters_distinct
  ids_distinct := by decide
  ring := by
    have hset : {i : Fin 2 | true = true} = {0, 1} := by
      ext i
      have htwo : ∀ i : Fin 2, i = 0 ∨ i = 1 := by decide
      simpa using htwo i
    rw [hset]
    exact Equiv.Perm.isCycleOn_swap (by decide)
  starter_member := rfl

/-- A pass of the loop that reads the token, or nothing, and then a record, or
nothing. -/
def fullPass {n : Nat} (i : Fin n) (received read : Option Token) : List (Fin n × Event) :=
  passToUnicast i 10 ++
    (match received with
      | none => [(i, .unicastIdle)]
      | some token => [(i, .unicastMessage (.token token) 10 (fun _ => true)),
          (i, .joinFsmMaybeComplete false)]) ++
    [(i, .joinFsmMaybeComplete false), (i, .broadcastIdle),
      (match read with
        | none => (i, .cliIdle)
        | some record => (i, .cliRecord record)),
      (i, .handleTokenIfReady 10 (fun _ => true))]

theorem fullPass_sends {n : Nat} {i : Fin n} {received read : Option Token} :
    ∀ label ∈ fullPass i received read, label.2.SendsSucceed := by
  cases received <;> cases read <;> simp [fullPass, passToUnicast, Event.SendsSucceed]

/-- A record of `A` for `B`. -/
def recordForB : Token := ⟨[104, 105], NodeName.ofBytes [65], NodeName.ofBytes [66], 0, false⟩

/-- `A` attaches its record, and `B` reports it and sends the empty token. -/
theorem duo_run :
    ∃ run, Lts.Reaches World.loggedStep SendsSucceed (Deployment.duo.start, []) run ∧
      run.2.length = 4 ∧ run.2 = [] ++ .attached 0 recordForB :: run.2.tail ∧
      .received 1 recordForB ∈ run.2.tail ∧ run.1.Running := by
  have hexec : (Lts.exec World.loggedStep (Deployment.duo.start, [])
      (fullPass 0 none (some recordForB) ++ fullPass 1 (some recordForB) none)).map
      (fun run => (run.2.length, run.2.head?, decide (.received 1 recordForB ∈ run.2.tail),
        decide (∀ i, (run.1.node i).loc ≠ .stopped))) =
        some (4, some (.attached 0 recordForB), true, true) := by
    decide +kernel
  obtain ⟨run, hrun, hfacts⟩ := Option.map_eq_some_iff.mp hexec
  simp only [Prod.mk.injEq, decide_eq_true_eq] at hfacts
  obtain ⟨hlength, hhead, hreceived, hrunning⟩ := hfacts
  refine ⟨run, ?_, hlength, List.eq_cons_of_mem_head? hhead, hreceived, hrunning⟩
  refine Lts.reaches_of_exec ?_ hrun
  intro label hmem _
  rcases List.mem_append.mp hmem with hfirst | hsecond
  · exact fullPass_sends label hfirst
  · exact fullPass_sends label hsecond

theorem duo_message_delivered :
    ∃ run hops version, Lts.Reaches World.loggedStep SendsSucceed (Deployment.duo.start, []) run ∧
      run.2.length = 4 ∧ Distance Deployment.duo.next 0 1 hops ∧
      Delivery Deployment.duo 0 1 (recordForB.withVersion version) hops run.2.tail := by
  obtain ⟨run, hreach, hlength, hlog, _, _⟩ := duo_run
  obtain ⟨hops, version, hdist, _, hdelivery, _⟩ :=
    message_reaches_receiver Deployment.duo (fun _ => rfl) hreach hlog (r := 1) rfl rfl
  exact ⟨run, hops, version, hreach, hlength, hdist, hdelivery⟩

/-- How often the token was sent before a message in it was reported. -/
def sendsBeforeReport : List (RingEvent ι) → Nat
  | [] => 0
  | .sent _ _ _ :: rest => sendsBeforeReport rest + 1
  | .received _ _ :: _ => 0
  | .attached _ _ :: rest => sendsBeforeReport rest

omit [DecidableEq ι] [Fintype ι] in
theorem sendsBeforeReport_journey (k : Nat) (rest : List (RingEvent ι)) :
    sendsBeforeReport (journey d a token k ++ rest) = k + sendsBeforeReport rest := by
  induction k generalizing rest with
  | zero => simp [journey]
  | succ k ih =>
      rw [journey_succ, List.append_assoc, ih, List.singleton_append, sendsBeforeReport]
      omega

omit [DecidableEq ι] [Fintype ι] in
theorem Delivery.sends_le (h : Delivery d a r token hops after) :
    sendsBeforeReport after ≤ hops := by
  cases h with
  | underWay k hpos hle =>
      have hsends : sendsBeforeReport (journey d a token k ++ []) = k :=
        sendsBeforeReport_journey k []
      rw [List.append_nil] at hsends
      rw [hsends]
      exact hle
  | delivered passed rest hpassed hcleared =>
      rw [sendsBeforeReport_journey]
      exact le_rfl

/-- The token of a message for a member is emptied after at most as many sends
as there are nodes, and while no node leaves its loop it can always be. -/
theorem token_freed_within_circulation (d : Deployment ι) (hall : ∀ i, d.member i = true)
    (h : Lts.Reaches World.loggedStep SendsSucceed (d.start, []) run)
    (hlog : run.2 = before ++ .attached a record :: after)
    (hfull : record.isEmpty = false) (hmember : ∃ r, record.receiver = (d.self r).nodeName) :
    sendsBeforeReport after ≤ Fintype.card ι ∧
      (run.1.Running → ∃ later rest r token,
        Lts.Reaches World.loggedStep SendsSucceed run later ∧
        later.2 = before ++ .attached a record :: rest ∧ .received r token ∈ rest) := by
  obtain ⟨r, hreceiver⟩ := hmember
  obtain ⟨hops, hdist, hle⟩ := exists_distance (d.ring_univ hall) a r
  obtain ⟨place, hplace, hcirculates⟩ := circulates_of_reaches hall h
  obtain ⟨version, hfate⟩ := hcirculates.fate hlog hdist hfull hreceiver
  refine ⟨hfate.delivery.sends_le.trans hle, fun hrunning => ?_⟩
  obtain ⟨later, rest, hreach, hlater⟩ :=
    delivered_of_fate (record.withVersion version) hdist hfull hreceiver hfate hplace hlog
      hrunning
  exact ⟨later, _, r, _, hreach, hlater, List.mem_append_right _ List.mem_cons_self⟩

/-- In the run of two members the token is freed after one send. -/
theorem duo_token_freed :
    ∃ run, Lts.Reaches World.loggedStep SendsSucceed (Deployment.duo.start, []) run ∧
      .received 1 recordForB ∈ run.2.tail ∧ sendsBeforeReport run.2.tail ≤ 2 ∧
      ∃ later rest r token, Lts.Reaches World.loggedStep SendsSucceed run later ∧
        later.2 = [] ++ .attached 0 recordForB :: rest ∧ .received r token ∈ rest := by
  obtain ⟨run, hreach, _, hlog, hreceived, hrunning⟩ := duo_run
  obtain ⟨hsends, hfreed⟩ := token_freed_within_circulation Deployment.duo (fun _ => rfl) hreach
    hlog rfl ⟨1, rfl⟩
  exact ⟨run, hreach, hreceived, hsends, hfreed hrunning⟩

/-- One member, its own neighbour. -/
def Deployment.solo : Deployment (Fin 1) where
  self _ := ⟨NodeName.ofBytes [65], 5001⟩
  member _ := true
  next := 1
  starter := 0
  requestId _ := 0
  names_distinct := by decide
  ids_distinct := by decide
  ring := Equiv.Perm.isCycleOn_one.mpr (Set.subsingleton_of_subsingleton)
  starter_member := rfl

/-- A record for a name that no node has. -/
def recordForNobody : Token :=
  ⟨[104, 105], NodeName.ofBytes [65], NodeName.ofBytes [90], 0, false⟩

/-- The token of a message for nobody goes around and around. -/
theorem undeliverable_message_stays :
    ¬ ∀ (n : Nat) (d : Deployment (Fin n)) (run : World (Fin n) × List (RingEvent (Fin n)))
      (a : Fin n) (record : Token) (before after : List (RingEvent (Fin n))),
      (∀ i, d.member i = true) →
      Lts.Reaches World.loggedStep SendsSucceed (d.start, []) run →
      run.2 = before ++ .attached a record :: after → record.isEmpty = false →
        sendsBeforeReport after ≤ n := by
  intro hclaim
  have hexec : (Lts.exec World.loggedStep (Deployment.solo.start, [])
      (fullPass 0 none (some recordForNobody) ++ fullPass 0 (some recordForNobody) none)).map
      (fun run => (run.2.head?, sendsBeforeReport run.2.tail)) =
        some (some (.attached 0 recordForNobody), 2) := by
    decide +kernel
  obtain ⟨run, hrun, hfacts⟩ := Option.map_eq_some_iff.mp hexec
  obtain ⟨hhead, htwo⟩ := Prod.mk.inj hfacts
  have hreach : Lts.Reaches World.loggedStep SendsSucceed (Deployment.solo.start, []) run := by
    refine Lts.reaches_of_exec ?_ hrun
    intro label hmem _
    rcases List.mem_append.mp hmem with hfirst | hsecond
    · exact fullPass_sends label hfirst
    · exact fullPass_sends label hsecond
  have hlog : run.2 = [] ++ .attached 0 recordForNobody :: run.2.tail :=
    List.eq_cons_of_mem_head? hhead
  have hone := hclaim 1 Deployment.solo run 0 recordForNobody [] run.2.tail (fun _ => rfl)
    hreach hlog rfl
  omega

end Messages

end TokenRing
