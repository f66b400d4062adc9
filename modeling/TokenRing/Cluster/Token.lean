import Mathlib.Algebra.Order.BigOperators.Group.Finset
import TokenRing.Cluster.Membership
import TokenRing.LetterNodes

/-!
The token of the whole system. A transition neither makes nor loses one, and
it is only ever sent to a node that has joined: the sender is the one holder,
so no join is in flight anywhere, and every linked name is a joined one.
-/

namespace TokenRing

def UnicastMsg.isToken : UnicastMsg → Bool
  | .token _ => true
  | _ => false

/-- A token that was sent with success. -/
def Effect.sendsToken : Effect → Bool
  | .unicast _ msg true => msg.isToken
  | _ => false

/-- The tokens that one step puts into inboxes. -/
def tokensSent (out : List Effect) : Nat := out.countP Effect.sendsToken

section Local

variable {state state' : RingState} {event : Event} {out : List Effect}

theorem tokensSent_eq_zero (h : ∀ dst token ok, .unicast dst (.token token) ok ∉ out) :
    tokensSent out = 0 := by
  apply List.countP_eq_zero.mpr
  rintro effect member hsends
  unfold Effect.sendsToken UnicastMsg.isToken at hsends
  split at hsends
  · split at hsends
    · exact h _ _ _ member
    · cases hsends
  · cases hsends

/-- Only the idle holder sends a token, and it sends it to its successor. -/
theorem Transition.token_sender (h : Transition state event state' out) {dst : Route}
    {token : Token} {ok : Bool} (hsent : .unicast dst (.token token) ok ∈ out) :
    state.joined = true ∧ state.haveToken = true ∧ state.joinInflight.active = false ∧
      dst = state.config.next ∧
      (token.topoVersion = state.tokenIn.topoVersion ∨
        token.topoVersion = state.lastSeenTopoVersion) := by
  cases h with
  | acceptsSent now sent retries hactive =>
      exact absurd hsent (inflightSends_no_token _ sent dst token ok)
  | joinStarted now sent pending joinState hjoined htoken hidle hpop =>
      exact absurd hsent (inflightSends_no_token _ sent dst token ok)
  | completed event hevent mid answers hactive hmid hprev hgot hanswers =>
      rcases List.mem_append.mp hsent with hcommit | hanswer
      · cases List.mem_singleton.mp hcommit
      · obtain ⟨_, _, _, _, heq⟩ := hanswers _ hanswer
        cases heq
  | ackAnswered requestId fromName now sent answers hanswers =>
      obtain ⟨_, _, _, _, heq⟩ := hanswers _ hsent
      cases heq
  | confirmed fromName now sent answers hactive hanswers =>
      obtain ⟨_, _, _, _, heq⟩ := hanswers _ hsent
      cases heq
  | forwarded now sent hjoined htoken hidle hcount =>
      obtain ⟨reports, out, cliPending, haveCliPending, hreports, hversion, heq⟩ :=
        ringOnToken_cases state sent
      rw [heq] at hsent
      rcases List.mem_append.mp hsent with hreport | hlast
      · rcases hreports _ hreport with ⟨_, hbad⟩ | ⟨_, hbad⟩ <;> cases hbad
      · cases List.mem_singleton.mp hlast
        exact ⟨hjoined, htoken, hidle, rfl, hversion⟩
  | _ => simp at hsent

/-- A transition keeps the number of tokens: one that arrives is held, and one
that is sent is held no longer. -/
theorem Transition.token_balance (h : Transition state event state' out)
    (harrival : event.isToken = true → state.joined = true ∧ state.haveToken = false) :
    state'.haveToken.toNat + tokensSent out = state.haveToken.toNat + event.isToken.toNat := by
  have hquiet : ∀ after : RingState, (∀ dst token ok, .unicast dst (.token token) ok ∉ out) →
      event.isToken = false → after.haveToken = state.haveToken →
      after.haveToken.toNat + tokensSent out =
        state.haveToken.toNat + event.isToken.toNat := by
    intro after hnone hevent hsame
    rw [tokensSent_eq_zero hnone, hevent, hsame]
    rfl
  have hanswers : ∀ {answers : List Effect}, OnlyAckAcks answers →
      ∀ dst token ok, .unicast dst (.token token) ok ∉ answers := by
    intro answers h dst token ok member
    obtain ⟨_, _, _, _, heq⟩ := h _ member
    cases heq
  cases h with
  | idle event hevent => exact hquiet _ (by simp) hevent rfl
  | queueShrunk event hevent joinState hshrinks => exact hquiet _ (by simp) hevent rfl
  | senderChanged event hevent sender hsender => exact hquiet _ (by simp) hevent rfl
  | acceptsSent now ok retries hactive => exact hquiet _ (inflightSends_no_token _ ok) rfl rfl
  | completed event hevent mid answers hactive hmid hprev hgot honly =>
      refine hquiet _ ?_ hevent ?_
      · intro dst token ok member
        rcases List.mem_append.mp member with hcommit | hanswer
        · cases List.mem_singleton.mp hcommit
        · exact hanswers honly dst token ok hanswer
      · rcases hmid with rfl | ⟨_, _, _, _, rfl⟩ <;> rfl
  | ackAnswered requestId fromName now ok answers honly =>
      exact hquiet _ (hanswers honly) rfl rfl
  | confirmed fromName now ok answers hactive honly => exact hquiet _ (hanswers honly) rfl rfl
  | tokenStored token now ok hunjoined =>
      obtain ⟨hjoined, _⟩ := harrival rfl
      rw [hunjoined] at hjoined
      cases hjoined
  | tokenTaken token now ok joinState hjoined hshrinks hempty =>
      obtain ⟨_, hnone⟩ := harrival rfl
      rw [hnone]
      rfl
  | joinStarted now ok pending joinState hjoined htoken hidle hpop =>
      exact hquiet _ (inflightSends_no_token _ ok) rfl rfl
  | forwarded now ok hjoined htoken hidle hcount =>
      obtain ⟨reports, sent, cliPending, haveCliPending, hreports, _, heq⟩ :=
        ringOnToken_cases state ok
      have hnone : tokensSent reports = 0 := by
        refine tokensSent_eq_zero fun dst token ok member => ?_
        rcases hreports _ member with ⟨_, hbad⟩ | ⟨_, hbad⟩ <;> cases hbad
      have hsplit : tokensSent (ringOnToken state ok).2 =
          tokensSent [.unicast state.config.next (.token sent) (ok 0)] := by
        rw [heq, tokensSent, List.countP_append]
        exact (congrArg (· + _) hnone).trans (Nat.zero_add _)
      rw [hsplit, heq]
      cases hok : ok 0 <;>
        simp [htoken, tokensSent, Effect.sendsToken, UnicastMsg.isToken, Event.isToken]
  | _ => exact hquiet _ (by simp) rfl rfl

end Local

section World

variable {ι : Type*} {d : Deployment ι} {w w' : World ι}

theorem World.one_le_tokens_at (w : World ι) (i : ι)
    (h : (w.state i).haveToken = true ∨ ∃ token, .token token ∈ w.inbox i) :
    1 ≤ (w.state i).haveToken.toNat + (w.inbox i).countP UnicastMsg.isToken := by
  rcases h with htoken | ⟨token, hmsg⟩
  · rw [htoken]
    exact Nat.le_add_right 1 _
  · have hpos : 0 < (w.inbox i).countP UnicastMsg.isToken :=
      List.countP_pos_iff.mpr ⟨_, hmsg, rfl⟩
    omega

theorem count_takeFrom {event : Event} {inbox : List UnicastMsg}
    (htaken : ∀ msg now ok, event = .unicastMessage msg now ok → msg ∈ inbox) :
    (event.takeFrom inbox).countP UnicastMsg.isToken + event.isToken.toNat =
      inbox.countP UnicastMsg.isToken := by
  cases event with
  | unicastMessage msg now ok =>
      have hperm := List.perm_cons_erase (htaken msg now ok rfl)
      rw [hperm.countP_eq, List.countP_cons]
      cases msg <;> rfl
  | _ => rfl

variable [Fintype ι]

/-- The nodes that hold a token and the tokens in inboxes. -/
def World.tokens (w : World ι) : Nat :=
  ∑ i, ((w.state i).haveToken.toNat + (w.inbox i).countP UnicastMsg.isToken)

/-- A successful send puts one copy into one inbox, any other effect none. -/
theorem sum_copyFor (route : ι → Route) (hinjective : Function.Injective route)
    (effect : Effect) (haddressed : ∀ dst, effect.reached = some dst → ∃ i, route i = dst) :
    ∑ j, (effect.copyFor (route j)).toList.countP UnicastMsg.isToken =
      [effect].countP Effect.sendsToken := by
  have hnone : (∀ j, effect.copyFor (route j) = none) → effect.sendsToken = false →
      ∑ j, (effect.copyFor (route j)).toList.countP UnicastMsg.isToken =
        [effect].countP Effect.sendsToken := by
    intro hcopy hsends
    simp [hcopy, hsends]
  cases effect with
  | unicast dst msg ok =>
      cases ok with
      | false => exact hnone (fun _ => rfl) rfl
      | true =>
          obtain ⟨i, rfl⟩ := haddressed dst rfl
          rw [Finset.sum_eq_single i]
          · cases msg <;> simp [Effect.copyFor, Effect.sendsToken, UnicastMsg.isToken]
          · intro j _ hji
            have hother : route i ≠ route j := fun heq => hji (hinjective heq).symm
            simp [Effect.copyFor, hother]
          · intro habsent
            exact absurd (Finset.mem_univ i) habsent
  | _ => exact hnone (fun _ => rfl) rfl

/-- Every successful send puts one copy into one inbox. -/
theorem sum_delivered (route : ι → Route) (hinjective : Function.Injective route)
    (out : List Effect) (haddressed : ∀ dst ∈ out.filterMap Effect.reached, ∃ i, route i = dst) :
    ∑ j, (delivered (route j) out).countP UnicastMsg.isToken = tokensSent out := by
  induction out with
  | nil => simp [delivered, tokensSent]
  | cons effect rest ih =>
      have hrest := ih fun dst member => haddressed dst (by
        rw [List.filterMap_cons]
        split
        · exact member
        · exact List.mem_cons_of_mem _ member)
      have hsplit : ∀ j, (delivered (route j) (effect :: rest)).countP UnicastMsg.isToken =
          (effect.copyFor (route j)).toList.countP UnicastMsg.isToken +
            (delivered (route j) rest).countP UnicastMsg.isToken := by
        intro j
        unfold delivered
        rw [List.filterMap_cons]
        cases effect.copyFor (route j) <;> simp [List.countP_cons, Nat.add_comm]
      have hone := sum_copyFor route hinjective effect fun dst hdst => haddressed dst (by
        rw [List.filterMap_cons, hdst]
        exact List.mem_cons_self)
      rw [Finset.sum_congr rfl fun j _ => hsplit j, Finset.sum_add_distrib, hone, hrest]
      unfold tokensSent
      rw [← List.countP_append]
      rfl

/-- A node does not hold one token with another in its inbox. -/
theorem World.not_both (hone : w.tokens = 1) {i : ι} {token : Token}
    (hmsg : .token token ∈ w.inbox i) : (w.state i).haveToken = false := by
  cases hholds : (w.state i).haveToken with
  | false => rfl
  | true =>
      have hle := Finset.single_le_sum
        (f := fun k => (w.state k).haveToken.toNat + (w.inbox k).countP UnicastMsg.isToken)
        (fun k _ => Nat.zero_le _) (Finset.mem_univ i)
      have hpos : 0 < (w.inbox i).countP UnicastMsg.isToken :=
        List.countP_pos_iff.mpr ⟨_, hmsg, rfl⟩
      simp only [hholds] at hle
      have hnat : true.toNat = 1 := rfl
      unfold World.tokens at hone
      omega

variable [DecidableEq ι]

/-- A sum over the nodes when one step changes the summand of `i` on its own
and adds to those of all. -/
theorem sum_balance {f g h : ι → Nat} {a b : Nat} (i : ι)
    (hother : ∀ j, j ≠ i → f j = g j + h j) (hself : f i + a = g i + h i + b) :
    ∑ j, f j + a = ∑ j, g j + ∑ j, h j + b := by
  have hrest : ∑ j ∈ Finset.univ.erase i, f j =
      ∑ j ∈ Finset.univ.erase i, g j + ∑ j ∈ Finset.univ.erase i, h j := by
    rw [← Finset.sum_add_distrib]
    exact Finset.sum_congr rfl fun j hj => hother j (Finset.ne_of_mem_erase hj)
  have hf := Finset.add_sum_erase Finset.univ f (Finset.mem_univ i)
  have hg := Finset.add_sum_erase Finset.univ g (Finset.mem_univ i)
  have hh := Finset.add_sum_erase Finset.univ h (Finset.mem_univ i)
  omega

/-- A step of the world keeps the number of tokens, provided that a token is
taken by a node that has joined and holds none. -/
theorem World.Moves.tokens {i : ι} {event : Event} {out : List Effect}
    (h : w.Moves i event out w') (hroutes : Function.Injective fun j => (w.state j).config.current)
    (harrival : event.isToken = true →
      (w.state i).joined = true ∧ (w.state i).haveToken = false) :
    w'.tokens = w.tokens := by
  have hlocal := h.transition.token_balance harrival
  have hsent := sum_delivered (fun j => (w.state j).config.current) hroutes out h.addressed
  have htaken : (event.takeFrom (w.inbox i)).countP UnicastMsg.isToken + event.isToken.toNat =
      (w.inbox i).countP UnicastMsg.isToken := count_takeFrom fun msg now ok heq => by
    have hoffers := h.offers
    rw [heq] at hoffers
    exact hoffers
  have hsum := sum_balance (f := fun j => (w'.state j).haveToken.toNat +
      (w'.inbox j).countP UnicastMsg.isToken)
    (g := fun j => (w.state j).haveToken.toNat + (w.inbox j).countP UnicastMsg.isToken)
    (h := fun j => (delivered (w.state j).config.current out).countP UnicastMsg.isToken)
    (a := (w.state i).haveToken.toNat + event.isToken.toNat) (b := (w'.state i).haveToken.toNat) i
    (fun j hj => by
      rw [h.others j hj, h.inbox_other j hj, List.countP_append]
      omega)
    (by
      rw [h.inbox_self, List.countP_append]
      omega)
  rw [hsent] at hsum
  unfold World.tokens
  omega

/-- With one token in the system, two places of a token are at one node. -/
theorem World.place_unique (hone : w.tokens = 1) {i j : ι}
    (hi : (w.state i).haveToken = true ∨ ∃ token, .token token ∈ w.inbox i)
    (hj : (w.state j).haveToken = true ∨ ∃ token, .token token ∈ w.inbox j) : i = j := by
  by_contra hne
  have hpair := Finset.sum_le_sum_of_subset (Finset.subset_univ {i, j})
    (f := fun k => (w.state k).haveToken.toNat + (w.inbox k).countP UnicastMsg.isToken)
  rw [Finset.sum_pair hne] at hpair
  have hfirst := w.one_le_tokens_at i hi
  have hsecond := w.one_le_tokens_at j hj
  unfold World.tokens at hone
  omega

/-- One token, and the nodes it is on its way to have joined. -/
structure World.OneToken (w : World ι) : Prop where
  one : w.tokens = 1
  arrives : ∀ i token, .token token ∈ w.inbox i → (w.state i).joined = true

theorem Deployment.start_oneToken (d : Deployment ι) : d.start.OneToken := by
  refine ⟨?_, fun i token hmsg => by cases hmsg⟩
  have hstate : ∀ i, (d.start.state i).haveToken.toNat +
      (d.start.inbox i).countP UnicastMsg.isToken = if i = d.starter then 1 else 0 := by
    intro i
    obtain ⟨tokenIn, _, hstart⟩ := d.start_state i
    rw [hstart]
    by_cases hstarter : i = d.starter
    · simp [Deployment.start, hstarter, d.starter_member]
    · simp [Deployment.start, hstarter]
  unfold World.tokens
  rw [Finset.sum_congr rfl fun i _ => hstate i]
  simp

/-- The successor of the idle holder has joined: with no join in flight
anywhere, a linked name is a joined one. -/
theorem World.Knows.next_joined (hknows : w.Knows d) (hone : w.tokens = 1) {i : ι}
    (hjoined : (w.state i).joined = true) (htoken : (w.state i).haveToken = true)
    (hidle : (w.state i).joinInflight.active = false) :
    (w.names d).joined (w.state i).config.next.nodeName := by
  rcases (hknows.nodes i).next hjoined with hname | ⟨k, hactive, _⟩
  · exact hname
  · have hholds := (hknows.nodes k).coordinator.active_token hactive
    rw [World.place_unique hone (.inl hholds) (.inl htoken), hidle] at hactive
    cases hactive

theorem World.Moves.oneToken {i : ι} {event : Event} {out : List Effect}
    (h : w.Moves i event out w') (hknows : w.Knows d)
    (hcurrent : ∀ j, (w.state j).config.current = d.self j) (hone : w.OneToken) :
    w'.OneToken := by
  have hroutes : Function.Injective fun j => (w.state j).config.current := by
    intro j k heq
    simp only [hcurrent] at heq
    exact d.names_distinct j k (congrArg Route.nodeName heq)
  have harrival : event.isToken = true →
      (w.state i).joined = true ∧ (w.state i).haveToken = false := by
    intro hevent
    cases event with
    | unicastMessage msg now ok =>
        cases msg with
        | token token =>
            exact ⟨hone.arrives i token h.offers, World.not_both hone.one h.offers⟩
        | _ => cases hevent
    | _ => cases hevent
  refine ⟨(h.tokens hroutes harrival).trans hone.one, fun j token hmsg => ?_⟩
  have hstays : (w.state j).joined = true → (w'.state j).joined = true := by
    intro hj
    by_cases hji : j = i
    · rw [hji] at hj ⊢
      exact h.transition.identity.2.2 hj
    · rwa [h.others j hji]
  rcases h.mem_inbox hmsg with hold | hsent
  · exact hstays (hone.arrives j token hold)
  · obtain ⟨hjoined, htoken, hidle, hnext, _⟩ := h.transition.token_sender hsent
    refine hstays (hknows.next_joined hone.one hjoined htoken hidle j ?_)
    rw [← hnext, hcurrent j]

theorem reachable_oneToken (h : Lts.Reachable World.step d.start w) : w.OneToken := by
  refine h.invariant_on World.OneToken d.start_oneToken ?_
  intro w label w' hreach hone _ hstep
  obtain ⟨out, hmoves⟩ := World.moves_of_step hstep
  exact hmoves.oneToken (reachable_knows hreach)
    (fun j => (reachable_identity hreach j).1) hone

/-- In every reachable state the nodes that hold a token and the tokens in
inboxes are one in number, and at most one node has a join in flight. -/
theorem one_token_and_one_coordinator (d : Deployment ι) (w : World ι)
    (h : Lts.Reachable World.step d.start w) :
    (Finset.univ.filter fun i => (w.state i).haveToken = true).card +
        ∑ i, (w.inbox i).countP UnicastMsg.isToken = 1 ∧
      ∀ i j, (w.state i).joinInflight.active = true →
        (w.state j).joinInflight.active = true → i = j := by
  have hone := (reachable_oneToken h).one
  have hknows := reachable_knows h
  refine ⟨?_, fun i j hi hj => ?_⟩
  · have hcard : (Finset.univ.filter fun i => (w.state i).haveToken = true).card =
        ∑ i, (w.state i).haveToken.toNat := by
      rw [Finset.card_filter]
      refine Finset.sum_congr rfl fun i _ => ?_
      cases (w.state i).haveToken <;> rfl
    rw [hcard, ← Finset.sum_add_distrib]
    exact hone
  · exact World.place_unique hone (.inl ((hknows.nodes i).coordinator.active_token hi))
      (.inl ((hknows.nodes j).coordinator.active_token hj))

end World

/-- Node `A`, alone in its ring with the token, and node `B`, which asks to
join it. -/
def Deployment.pair : Deployment (Fin 2) where
  self := letterNode
  member i := i = 0
  next := 1
  starter := 0
  requestId _ := 7
  names_distinct := twoLetters_distinct
  ids_distinct := by decide
  ring := Equiv.Perm.isCycleOn_one.mpr (by
    intro i hi j hj
    simp only [Set.mem_ofPred_eq, decide_eq_true_eq] at hi hj
    rw [hi, hj])
  starter_member := rfl

/-- The events of one pass of the loop up to the point where messages are
read. -/
def passToUnicast {ι : Type*} (i : ι) (now : Int) : List (ι × Event) :=
  [.joinAckSenderTick now (fun _ => true), .pruneJoins now, .joinFsmRequestTick now true,
    .joinFsmInflightTick now (fun _ => true), .selectReady].map (fun event => (i, event))

/-- `B` asks to join, `A` takes the request up, `B` applies the accept, and
`A` completes the join and passes the token on. -/
def pairJoins : List (Fin 2 × Event) :=
  [(1, .joinFsmRequestTick 10 true)] ++ passToUnicast 0 10 ++
  [(0, .unicastIdle), (0, .joinFsmMaybeComplete false),
    (0, .broadcastMessage (.joinRequest ⟨7, NodeName.ofBytes [66], 5002⟩) 0 10),
    (0, .cliIdle), (0, .handleTokenIfReady 10 (fun _ => true))] ++ passToUnicast 1 10 ++
  [(1, .unicastMessage (.joinAccept ⟨7, NodeName.ofBytes [66], 5002, NodeName.ofBytes [65], 5001,
    NodeName.ofBytes [65], 5001⟩) 10 (fun _ => true))] ++ passToUnicast 0 10 ++
  [(0, .unicastMessage (.joinAck 7 (NodeName.ofBytes [66])) 10 (fun _ => true)),
    (0, .joinFsmMaybeComplete false), (0, .joinFsmMaybeComplete false), (0, .broadcastIdle),
    (0, .cliIdle), (0, .handleTokenIfReady 10 (fun _ => true))]

/-- Node `A`, alone in its ring with the token, and nodes `B` and `C`, which
ask to join it. -/
def Deployment.newcomers : Deployment (Fin 3) where
  self := letterNode
  member i := i = 0
  next := 1
  starter := 0
  requestId i := UInt32.ofNat (6 + i)
  names_distinct := threeLetters_distinct
  ids_distinct := by decide
  ring := Equiv.Perm.isCycleOn_one.mpr (by
    intro i hi j hj
    simp only [Set.mem_ofPred_eq, decide_eq_true_eq] at hi hj
    rw [hi, hj])
  starter_member := rfl

/-- `B` and `C` ask to join, and `B` joins. `A` reads the request of `B` once
more after that, and passes the token on. -/
def firstNewcomer : List (Fin 3 × Event) :=
  let request : JoinRequest := ⟨7, NodeName.ofBytes [66], 5002⟩
  [[(1, .joinFsmRequestTick 10 true), (2, .joinFsmRequestTick 10 true)],
    passToUnicast 0 10,
    [(0, .unicastIdle), (0, .joinFsmMaybeComplete false),
      (0, .broadcastMessage (.joinRequest request) 0 10), (0, .cliIdle),
      (0, .handleTokenIfReady 10 (fun _ => true))],
    passToUnicast 1 10,
    [(1, .unicastMessage (.joinAccept ⟨7, NodeName.ofBytes [66], 5002, NodeName.ofBytes [65], 5001,
      NodeName.ofBytes [65], 5001⟩) 10 (fun _ => true))],
    passToUnicast 0 10,
    [(0, .unicastMessage (.joinAck 7 (NodeName.ofBytes [66])) 10 (fun _ => true)),
      (0, .joinFsmMaybeComplete false), (0, .joinFsmMaybeComplete false),
      (0, .broadcastMessage (.joinRequest request) 0 10), (0, .cliIdle),
      (0, .handleTokenIfReady 10 (fun _ => true))]].flatten

/-- `B` takes the token and reads the request of `C`. -/
def secondNewcomer : List (Fin 3 × Event) :=
  [(1, .joinFsmMaybeComplete true),
    (1, .unicastMessage (.token { Token.zero with isEmpty := true, topoVersion := 1 }) 10
      (fun _ => true)),
    (1, .joinFsmMaybeComplete false), (1, .joinFsmMaybeComplete false),
    (1, .broadcastMessage (.joinRequest ⟨8, NodeName.ofBytes [67], 5003⟩) 0 10), (1, .cliIdle)]

/-- After the run of `pairJoins` the one token is on its way to `B`. -/
theorem pair_token_under_way :
    ∃ w, Lts.Reachable World.step Deployment.pair.start w ∧
      (w.inbox 1).countP UnicastMsg.isToken = 1 ∧
      (Finset.univ.filter fun i => (w.state i).haveToken = true).card +
        ∑ i, (w.inbox i).countP UnicastMsg.isToken = 1 := by
  have hrun : (Lts.exec World.step Deployment.pair.start pairJoins).map
      (fun w => (w.inbox 1).countP UnicastMsg.isToken) = some 1 := by decide +kernel
  obtain ⟨w, hexec, hcount⟩ := Option.map_eq_some_iff.mp hrun
  have hreach := Lts.reachable_of_exec hexec
  exact ⟨w, hreach, hcount, (one_token_and_one_coordinator Deployment.pair w hreach).1⟩

end TokenRing
