import TokenRing.Cluster.Messages
import TokenRing.Cluster.RingRefinement

/-!
The ring depends on the node where the token is. No node waits for a token for
a limited time only, and none makes a second one: once that node takes no more
steps, because its loop has ended or it was killed, the others go on with their
own loops, but the ring stands still.
-/

namespace TokenRing

/-- What a node sends and reads without the token and without a join of its
own in flight. -/
def Effect.aside : Effect → Bool
  | .unicast _ (.joinAck _ _) _ | .unicast _ (.joinAckAck _ _) _ => true
  | .broadcast (.joinRequest _) | .cliRead _ => true
  | _ => false

/-- A step of a node that stands aside: its place in the ring can change only
by an accept. -/
structure StandsAside (state : RingState) (event : Event) (state' : RingState)
    (out : List Effect) : Prop where
  tokenless : state'.haveToken = false
  idle : state'.joinInflight.active = false
  effects : ∀ effect ∈ out, effect.aside = true
  place : (state'.config = state.config ∧ state'.joined = state.joined) ∨
    ∃ accept now ok, event = .unicastMessage (.joinAccept accept) now ok

section Local

variable {state state' : RingState} {event : Event} {out : List Effect}

theorem OnlyAckAcks.aside {answers : List Effect} (h : OnlyAckAcks answers) :
    ∀ effect ∈ answers, effect.aside = true := by
  intro effect hmem
  obtain ⟨_, _, _, _, rfl⟩ := h effect hmem
  rfl

/-- A node that does not have the token, has no join in flight and is handed no
token stands aside. -/
theorem Transition.standsAside (h : Transition state event state' out)
    (htoken : state.haveToken = false) (hidle : state.joinInflight.active = false)
    (hevent : event.isToken = false) : StandsAside state event state' out := by
  have hcoordinates : state.joinInflight.active ≠ true := by simp [hidle]
  have hholds : state.haveToken ≠ true := by simp [htoken]
  cases h with
  | idle | queueShrunk | senderChanged | enqueued | commitSeen =>
      exact ⟨htoken, hidle, by simp, .inl ⟨rfl, rfl⟩⟩
  | requestSent | ackSent | recordRead =>
      exact ⟨htoken, hidle, by simp [Effect.aside], .inl ⟨rfl, rfl⟩⟩
  | ackAnswered requestId fromName now ok answers honly =>
      exact ⟨htoken, hidle, honly.aside, .inl ⟨rfl, rfl⟩⟩
  | acceptJoined accept now ok | acceptLinked accept now ok =>
      exact ⟨htoken, hidle, by simp [Effect.aside], .inr ⟨accept, now, ok, rfl⟩⟩
  | tokenStored | tokenTaken => cases hevent
  | acceptsSent now ok retries hactive => exact absurd hactive hcoordinates
  | completed event hevent mid answers hactive => exact absurd hactive hcoordinates
  | confirmed fromName now ok answers hactive => exact absurd hactive hcoordinates
  | commitCompleted newName topoVersion ip now joinState sender hshrinks hempty hsender hactive =>
      exact absurd hactive hcoordinates
  | joinStarted now ok pending joinState hjoined hhave => exact absurd hhave hholds
  | forwarded now ok hjoined hhave => exact absurd hhave hholds

/-- Such a node sends neither tokens nor accepts, announces nothing but its own
request, and shows nothing of the token. -/
theorem StandsAside.sends (h : StandsAside state event state' out) {dst : Route}
    {msg : UnicastMsg} {ok : Bool} (hsent : .unicast dst msg ok ∈ out) :
    (∀ token, msg ≠ .token token) ∧ ∀ accept, msg ≠ .joinAccept accept := by
  have haside := h.effects _ hsent
  cases msg with
  | token | joinAccept | malformed => cases haside
  | joinAck | joinAckAck => exact ⟨by simp, by simp⟩

theorem StandsAside.announces (h : StandsAside state event state' out) {msg : BroadcastMsg}
    (hmsg : msg ∈ announcements out) : ∃ request, msg = .joinRequest request := by
  have haside := h.effects _ (mem_announcements.mp hmsg)
  cases msg with
  | joinRequest request => exact ⟨request, rfl⟩
  | joinCommit | malformed => cases haside

theorem StandsAside.shows_nothing {ι : Type*} (h : StandsAside state event state' out) (i : ι) :
    ringEvents i out = [] := by
  refine ringEvents_eq_nil i fun effect hmem => ?_
  have haside := h.effects effect hmem
  unfold Effect.aside at haside
  split at haside
  · rename_i ok
    cases ok <;> rfl
  · rename_i ok
    cases ok <;> rfl
  · rfl
  · rfl
  · cases haside

end Local

variable {ι : Type*} {d : Deployment ι} {i : ι} {w w' w'' : World ι}

/-- The ring stands still between two states: the token stays with `i`, no
other node gets it or takes up a join, no commit is announced and no accept
sent, and a node changes its place only by an accept that was under way. -/
structure World.StandsStill (i : ι) (w w' : World ι) : Prop where
  waits : w'.state i = w.state i
  place : w'.TokenAt i
  tokenless : ∀ j, j ≠ i → (w'.state j).haveToken = false
  undelivered : ∀ j, j ≠ i → ∀ token, .token token ∉ w'.inbox j
  idle : ∀ j, j ≠ i → (w'.state j).joinInflight.active = false
  announced : ∀ msg ∈ w'.announced, msg ∈ w.announced ∨ ∃ request, msg = .joinRequest request
  accepts : ∀ j accept, .joinAccept accept ∈ w'.inbox j → .joinAccept accept ∈ w.inbox j
  places : ∀ j, ((w'.state j).config = (w.state j).config ∧
      (w'.state j).joined = (w.state j).joined) ∨
    ∃ accept, .joinAccept accept ∈ w.inbox j

/-- With one token in the system, the nodes other than the one where it is have
no join in flight. -/
theorem World.Knows.standsStill [Fintype ι] [DecidableEq ι] (hknows : w.Knows d)
    (hone : w.tokens = 1) (hat : w.TokenAt i) : w.StandsStill i w where
  waits := rfl
  place := hat
  tokenless := by
    intro j hj
    cases hholds : (w.state j).haveToken with
    | false => rfl
    | true => exact absurd (World.place_unique hone (.inl hholds) hat) hj
  undelivered := fun j hj token hmsg => hj (World.place_unique hone (.inr ⟨token, hmsg⟩) hat)
  idle := by
    intro j hj
    cases hactive : (w.state j).joinInflight.active with
    | false => rfl
    | true =>
        have hholds := (hknows.nodes j).coordinator.active_token hactive
        exact absurd (World.place_unique hone (.inl hholds) hat) hj
  announced := fun msg hmsg => .inl hmsg
  accepts := fun j accept hmsg => hmsg
  places := fun j => .inl ⟨rfl, rfl⟩

/-- A step of another node leaves the ring as it stands. -/
theorem World.StandsStill.step {j : ι} {event : Event} {out : List Effect}
    (h : w.StandsStill i w') (hmoves : w'.Moves j event out w'') (hj : j ≠ i) :
    w.StandsStill i w'' ∧ ringEvents j out = [] := by
  have hevent : event.isToken = false := by
    cases event with
    | unicastMessage msg now ok =>
        cases msg with
        | token token => exact absurd hmoves.offers (h.undelivered j hj token)
        | _ => rfl
    | _ => rfl
  have haside := hmoves.transition.standsAside (h.tokenless j hj) (h.idle j hj) hevent
  have hold : ∀ {k : ι} {msg : UnicastMsg}, msg ∈ w''.inbox k →
      (∃ token, msg = .token token) ∨ (∃ accept, msg = .joinAccept accept) →
      msg ∈ w'.inbox k := by
    intro k msg hmsg hkind
    refine (hmoves.mem_inbox hmsg).resolve_right fun hsent => ?_
    obtain ⟨hnotoken, hnoaccept⟩ := haside.sends hsent
    rcases hkind with ⟨token, heq⟩ | ⟨accept, heq⟩
    · exact hnotoken token heq
    · exact hnoaccept accept heq
  have hsame := hmoves.others i (Ne.symm hj)
  refine ⟨⟨hsame.trans h.waits, ?_, ?_, ?_, ?_, ?_, ?_, ?_⟩, haside.shows_nothing j⟩
  · rw [World.TokenAt, hsame, hmoves.inbox_other i (Ne.symm hj)]
    exact h.place.imp_right fun ⟨token, hmsg⟩ => ⟨token, List.mem_append_left _ hmsg⟩
  · intro k hk
    by_cases hkj : k = j
    · rw [hkj, haside.tokenless]
    · rw [hmoves.others k hkj, h.tokenless k hk]
  · exact fun k hk token hmsg => h.undelivered k hk token (hold hmsg (.inl ⟨token, rfl⟩))
  · intro k hk
    by_cases hkj : k = j
    · rw [hkj, haside.idle]
    · rw [hmoves.others k hkj, h.idle k hk]
  · intro msg hmsg
    rw [hmoves.announced] at hmsg
    rcases List.mem_append.mp hmsg with hbefore | hnew
    · exact h.announced msg hbefore
    · exact .inr (haside.announces hnew)
  · exact fun k accept hmsg => h.accepts k accept (hold hmsg (.inr ⟨accept, rfl⟩))
  · intro k
    by_cases hkj : k = j
    · subst hkj
      rcases haside.place with ⟨hconfig, hjoined⟩ | ⟨accept, now, ok, rfl⟩
      · rw [hconfig, hjoined]
        exact h.places k
      · exact .inr ⟨accept, h.accepts k accept hmoves.offers⟩
    · rw [hmoves.others k hkj]
      exact h.places k

variable [Fintype ι] [DecidableEq ι]

/-- The steps of the nodes other than `i`. -/
def NotBy (i : ι) (_ : World ι × List (RingEvent ι)) (label : ι × Event) : Prop := label.1 ≠ i

theorem World.node_of_other_step {label : ι × Event} (h : w.step label = some w')
    (hother : i ≠ label.1) : w'.node i = w.node i := by
  unfold World.step at h
  split at h
  · cases h
  · split at h
    · cases h
      exact Function.update_of_ne hother _ _
    · cases h

/-- A node that has left its loop takes no step, whatever is run. -/
theorem reaches_notBy_of_stopped {run : World ι × List (RingEvent ι)}
    {log : List (RingEvent ι)} (hstopped : (w.node i).loc = .stopped)
    (h : Lts.Reaches World.loggedStep Lts.free (w, log) run) :
    Lts.Reaches World.loggedStep (NotBy i) (w, log) run := by
  suffices hboth : Lts.Reaches World.loggedStep (NotBy i) (w, log) run ∧
      (run.1.node i).loc = .stopped from hboth.1
  refine h.invariant (fun run => Lts.Reaches World.loggedStep (NotBy i) (w, log) run ∧
    (run.1.node i).loc = .stopped) ⟨.refl, hstopped⟩ ?_
  rintro before label after ⟨hreach, hloc⟩ _ hstep
  have hother : label.1 ≠ i := by
    intro heq
    have hnone : (before.1.node label.1).step label.2 = none := by
      simp [Node.step, heq, hloc, Event.goesTo]
    simp [World.loggedStep, hnone] at hstep
  refine ⟨hreach.tail hother hstep, ?_⟩
  rw [World.node_of_other_step (World.step_of_loggedStep hstep) (Ne.symm hother), hloc]

/-- From every reachable state, in every run in which the node where the token
is takes no step, nothing happens to the token, no other node gets it or takes
up a join, and a node changes its place in the ring only by an accept that was
already on its way. -/
theorem ring_waits_for_token_node (d : Deployment ι) (w : World ι)
    (h : Lts.Reachable World.step d.start w) (i : ι) (hat : w.TokenAt i)
    (log : List (RingEvent ι)) (run : World ι × List (RingEvent ι))
    (hrun : Lts.Reaches World.loggedStep (NotBy i) (w, log) run) :
    run.2 = log ∧ w.StandsStill i run.1 := by
  have hstart : w.StandsStill i w := (reachable_knows h).standsStill (reachable_oneToken h).one hat
  refine hrun.invariant (fun run => run.2 = log ∧ w.StandsStill i run.1) ⟨rfl, hstart⟩ ?_
  rintro before label after ⟨hlog, hstill⟩ hother hstep
  obtain ⟨out, hmoves, hmore⟩ := World.loggedStep_some hstep
  obtain ⟨hnext, hnothing⟩ := hstill.step hmoves hother
  rw [hmore, hlog, hnothing, List.append_nil]
  exact ⟨rfl, hnext⟩

/-- `A` takes up the join of `B` and stops; `B` still applies the accept. -/
def stopsInJoin : List (Fin 2 × Event) :=
  pairJoins.take 11 ++ (passToUnicast 0 10).dropLast ++ [(0, .selectFailed)]

def appliesAccept : List (Fin 2 × Event) :=
  passToUnicast 1 10 ++
  [(1, .unicastMessage (.joinAccept ⟨7, NodeName.ofBytes [66], 5002, NodeName.ofBytes [65], 5001,
    NodeName.ofBytes [65], 5001⟩) 10 (fun _ => true))]

theorem pair_stands_still :
    ∃ w run, Lts.Reachable World.step Deployment.pair.start w ∧ (w.node 0).loc = .stopped ∧
      (w.state 1).joined = false ∧ Lts.Reachable World.loggedStep (w, []) run ∧
      (run.1.state 1).joined = true ∧ run.2 = [] ∧ w.StandsStill 0 run.1 := by
  have hrun : (Lts.exec World.step Deployment.pair.start stopsInJoin).bind (fun w =>
      (Lts.exec World.loggedStep (w, []) appliesAccept).map (fun run =>
        (decide ((w.node 0).loc = .stopped), (w.state 0).haveToken, (w.state 1).joined,
          (run.1.state 1).joined))) = some (true, true, false, true) := by
    decide +kernel
  obtain ⟨w, hexec, hrest⟩ := Option.bind_eq_some_iff.mp hrun
  obtain ⟨run, hmore, hvalues⟩ := Option.map_eq_some_iff.mp hrest
  simp only [Prod.mk.injEq, decide_eq_true_eq] at hvalues
  obtain ⟨hstopped, hholds, hbefore, hafter⟩ := hvalues
  have hreach := Lts.reachable_of_exec hexec
  have hfree := Lts.reachable_of_exec hmore
  exact ⟨w, run, hreach, hstopped, hbefore, hfree, hafter,
    ring_waits_for_token_node Deployment.pair w hreach 0 (.inl hholds) [] run
      (reaches_notBy_of_stopped hstopped hfree)⟩

end TokenRing
