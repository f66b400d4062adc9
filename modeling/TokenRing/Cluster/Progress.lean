import Mathlib.Data.Fintype.Order
import TokenRing.Cluster.Deliveries
import TokenRing.Cluster.RingRefinement

/-!
The ring goes on turning. Whatever joins a run has seen, while no join is in
flight the event loops can bring the token to any node that has joined.
-/

namespace TokenRing

namespace JoinState

theorem pruneStep_gone {state : JoinState} {now ttl : Int} {i : Fin 32}
    (hold : ∀ pending, state.joins i = some pending → now - pending.lastSeen > ttl) :
    (pruneStep now ttl state i).joins i = none := by
  unfold pruneStep
  cases hslot : state.joins i with
  | none => exact hslot
  | some pending =>
      simp only [hold pending hslot, if_true]
      exact SlotTable.set_self _ _ _

/-- A prune after the time of every entry empties the queue. -/
theorem pruneJoins_empties {state : JoinState} {now ttl : Int}
    (hold : ∀ i pending, state.joins i = some pending → now - pending.lastSeen > ttl)
    (i : Fin 32) : (state.pruneJoins now ttl).joins i = none := by
  have hloop : ∀ (slots : List (Fin 32)) (state : JoinState),
      (∀ i pending, state.joins i = some pending → now - pending.lastSeen > ttl) →
      (i ∈ slots ∨ state.joins i = none) →
      (slots.foldl (pruneStep now ttl) state).joins i = none := by
    intro slots
    induction slots with
    | nil =>
        rintro state _ (hmem | hnone)
        · cases hmem
        · exact hnone
    | cons k rest ih =>
        intro state hold hi
        have hshrinks := pruneStep_shrinks now ttl state k
        refine ih _ (fun j pending hslot => hold j pending (hshrinks.within j pending hslot)) ?_
        by_cases hik : i = k
        · subst hik
          exact .inr (pruneStep_gone (hold i))
        · refine hi.imp (fun hmem => (List.mem_cons.mp hmem).resolve_left hik) fun hnone => ?_
          cases hslot : (pruneStep now ttl state k).joins i with
          | none => rfl
          | some pending =>
              have hbefore := hshrinks.within i pending hslot
              rw [hnone] at hbefore
              cases hbefore
  exact hloop _ state hold (.inl (List.mem_finRange i))

/-- Nobody waits. -/
def Bare (state : JoinState) : Prop := ∀ i, state.joins i = none

theorem Shrinks.bare {before after : JoinState} (h : Shrinks before after)
    (hbare : before.Bare) : after.Bare := by
  intro i
  cases hslot : after.joins i with
  | none => rfl
  | some pending =>
      have hbefore := h.within i pending hslot
      rw [hbare] at hbefore
      cases hbefore

theorem bare_iff_count {state : JoinState} (h : CountExact state) :
    state.Bare ↔ state.count = 0 := by
  rw [Bare, ← SlotTable.used_card_eq_zero, ← countExact_toNat h, ← UInt64.toNat_inj,
    UInt64.toNat_zero]

end JoinState

section Nodes

/-- What a node does at a program point between two turns of the token: its
acknowledgements are lost. -/
def Loc.restEvent (now : Int) : Loc → Event
  | .ackSender => .joinAckSenderTick now (fun _ => false)
  | loc => loc.quietEvent now

/-- The program points up to the next one at which the queue is pruned. -/
def Loc.toPrune : Loc → Nat
  | .prune => 0
  | .ackSender => 1
  | .requestInit | .token => 2
  | .cli => 3
  | .broadcast => 4
  | .complete => 5
  | .unicast | .unicastComplete => 6
  | .selectResult => 7
  | .inflightTick => 8
  | .requestTick => 9
  | .stopped => 10

theorem Loc.restEvent_goesTo (now : Int) {loc : Loc} (h : loc ≠ .stopped) :
    ∃ after, (loc.restEvent now).goesTo loc = some after ∧ after ≠ .stopped := by
  cases loc with
  | stopped => exact absurd rfl h
  | _ => exact ⟨_, rfl, by decide⟩

/-- The next program point is nearer to each of the three. -/
theorem Loc.restEvent_nearer (now : Int) {loc after : Loc}
    (h : (loc.restEvent now).goesTo loc = some after) :
    (loc ≠ .prune → after.toPrune < loc.toPrune) ∧
      (loc ≠ .unicast → after.toUnicast < loc.toUnicast) ∧
      (loc ≠ .token → after.toToken < loc.toToken) := by
  cases loc <;> cases h <;> decide

/-- A step that keeps the routes and lets nobody into the queue. -/
structure RingState.Idles (state state' : RingState) : Prop where
  same : state.SameRing state'
  queue : JoinState.Shrinks state.joinState state'.joinState

theorem RingState.Idles.refl (state : RingState) : state.Idles state :=
  ⟨.refl state, .refl _⟩

theorem RingState.Idles.trans {a b c : RingState} (hab : a.Idles b) (hbc : b.Idles c) :
    a.Idles c :=
  ⟨⟨hbc.same.config.trans hab.same.config, hbc.same.joined.trans hab.same.joined,
    hbc.same.active.trans hab.same.active, hbc.same.requestId.trans hab.same.requestId,
    hbc.same.joiner.trans hab.same.joiner⟩, hab.queue.trans hbc.queue⟩

/-- What a node does at a program point between two turns: it keeps the token
if it has it, and what it sends is lost. -/
structure Loc.Rests (now : Int) (loc : Loc) (state after : RingState) (out : List Effect) :
    Prop where
  idles : state.Idles after
  haveToken : after.haveToken = state.haveToken
  lost : ∀ effect ∈ out, ∃ dst msg, effect = .unicast dst msg false
  pruned : loc = .prune → after.joinState = state.joinState.pruneJoins now joinPendingTtlS

variable {state : RingState}

theorem Loc.rests_of_same (now : Int) {loc : Loc} (hloc : loc ≠ .prune) :
    loc.Rests now state state [] :=
  ⟨.refl state, rfl, by simp, fun hat => absurd hat hloc⟩

theorem Loc.rests_ackSender (now : Int) :
    Loc.ackSender.Rests now state (joinAckSenderTick state now (fun _ => false)).1
      (joinAckSenderTick state now (fun _ => false)).2 := by
  rcases joinAckSenderTick_cases state now (fun _ => false) with heq | ⟨_, heq⟩ | ⟨_, _, _, heq⟩ <;>
  · rw [heq]
    exact ⟨⟨⟨rfl, rfl, rfl, rfl, rfl⟩, .refl _⟩, rfl, by simp, fun hat => by cases hat⟩

/-- An idle node that has joined passes every program point, apart from the one
at which it passes the token on. -/
theorem Loc.restEvent_handle (now : Int) {loc : Loc} (hloc : loc ≠ .stopped)
    (hjoined : state.joined = true) (hidle : state.joinInflight.active = false)
    (htoken : loc = .token → state.haveToken = false) :
    ∃ after out, (loc.restEvent now).handle state = some (after, out) ∧
      loc.Rests now state after out := by
  cases loc with
  | requestInit | requestTick =>
      refine ⟨state, [], ?_, Loc.rests_of_same now (by decide)⟩
      simp [Loc.restEvent, Loc.quietEvent, Event.handle, joinFsmRequestTick, hjoined]
  | ackSender => exact ⟨_, _, rfl, Loc.rests_ackSender now⟩
  | prune =>
      exact ⟨_, _, rfl, ⟨⟨rfl, rfl, rfl, rfl, rfl⟩, JoinState.pruneJoins_shrinks _ _ _⟩, rfl,
        by simp, fun _ => rfl⟩
  | inflightTick =>
      refine ⟨state, [], ?_, Loc.rests_of_same now (by decide)⟩
      simp [Loc.restEvent, Loc.quietEvent, Event.handle, joinFsmInflightTick, hidle]
  | selectResult | unicast | broadcast | cli =>
      exact ⟨state, [], rfl, Loc.rests_of_same now (by decide)⟩
  | unicastComplete | complete =>
      refine ⟨state, [], ?_, Loc.rests_of_same now (by decide)⟩
      simp [Loc.restEvent, Loc.quietEvent, Event.handle, joinFsmTryComplete, hidle]
  | token =>
      refine ⟨state, [], ?_, Loc.rests_of_same now (by decide)⟩
      simp [Loc.restEvent, Loc.quietEvent, Event.handle, handleTokenIfReady, htoken rfl]
  | stopped => exact absurd rfl hloc

end Nodes

variable {ι : Type*} [DecidableEq ι] [Fintype ι] {d : Deployment ι} {ring : Equiv.Perm ι}
  {w w' : World ι} {i : ι} {now : Int}

/-- A step of the node `i` that nothing stands in the way of. -/
theorem World.exists_step {event : Event} {node : Node} {out : List Effect}
    (hnode : (w.node i).step event = some (node, out)) (hoffers : w.Offers i event)
    (haddressed : w.Addressed out) :
    ∃ w', w.step (i, event) = some w' ∧ w.Moves i event out w' ∧
      w'.node = Function.update w.node i node := by
  have hstep : ∃ w', w.step (i, event) = some w' ∧ w'.node = Function.update w.node i node := by
    simp [World.step, hnode, hoffers, haddressed]
  obtain ⟨w', hstep, hupdate⟩ := hstep
  exact ⟨w', hstep, World.moves_of_node_step hnode hstep, hupdate⟩

omit [DecidableEq ι] in
/-- There is a time by which every waiting request has expired. -/
theorem World.exists_expiry (w : World ι) (ttl : Int) : ∃ now : Int, ∀ i k pending,
    (w.state i).joinState.joins k = some pending → now - pending.lastSeen > ttl := by
  obtain ⟨last, hlast⟩ := Finite.exists_le fun place : ι × Fin 32 =>
    (((w.state place.1).joinState.joins place.2).map PendingJoin.lastSeen).getD 0
  refine ⟨last + ttl + 1, fun i k pending hslot => ?_⟩
  have hle := hlast (i, k)
  simp only [hslot, Option.map_some, Option.getD_some] at hle
  omega

/-- The joined nodes run, draw one ring, and have no join in flight; by the time
`now` every waiting request has expired. -/
structure World.Turning (w : World ι) (d : Deployment ι) (ring : Equiv.Perm ι) (now : Int) :
    Prop where
  reached : Lts.Reachable World.step d.start w
  cycle : ring.IsCycleOn {i | (w.state i).joined = true}
  next : ∀ i, (w.state i).joined = true → (w.state i).config.next = d.self (ring i)
  idle : ∀ i, (w.state i).joinInflight.active = false
  running : ∀ i, (w.state i).joined = true → (w.node i).loc ≠ .stopped
  counts : ∀ i, JoinState.CountExact (w.state i).joinState
  expired : ∀ i k pending, (w.state i).joinState.joins k = some pending →
    now - pending.lastSeen > joinPendingTtlS

/-- A run of fresh steps that keeps the routes of all nodes. -/
structure World.Proceeds (w w' : World ι) : Prop where
  reaches : Lts.Reaches World.step World.RequestsFresh w w'
  idles : ∀ i, (w.state i).Idles (w'.state i)

theorem World.Proceeds.refl (w : World ι) : w.Proceeds w :=
  ⟨.refl, fun _ => .refl _⟩

theorem World.Proceeds.trans {a b c : World ι} (hab : a.Proceeds b) (hbc : b.Proceeds c) :
    a.Proceeds c :=
  ⟨hab.reaches.trans hbc.reaches, fun i => (hab.idles i).trans (hbc.idles i)⟩

theorem World.Turning.proceeds (h : w.Turning d ring now) (hproceeds : w.Proceeds w')
    (hrunning : ∀ i, (w'.state i).joined = true → (w'.node i).loc ≠ .stopped) :
    w'.Turning d ring now := by
  have hjoined : ∀ i, (w'.state i).joined = (w.state i).joined :=
    fun i => (hproceeds.idles i).same.joined
  refine ⟨h.reached.trans (hproceeds.reaches.weaken fun _ _ _ => trivial), ?_, fun i hi => ?_,
    fun i => ?_, hrunning, fun i => (hproceeds.idles i).queue.countExact (h.counts i),
    fun i k pending hslot =>
      h.expired i k pending ((hproceeds.idles i).queue.within k pending hslot)⟩
  · simpa only [hjoined] using h.cycle
  · rw [(hproceeds.idles i).same.config]
    exact h.next i ((hjoined i).symm.trans hi)
  · rw [(hproceeds.idles i).same.active]
    exact h.idle i

/-- A step of a joined node that keeps its routes. -/
theorem World.Turning.exists_step (h : w.Turning d ring now) {event : Event} {node : Node}
    {out : List Effect} (hnode : (w.node i).step event = some (node, out))
    (hoffers : w.Offers i event) (haddressed : w.Addressed out)
    (hevent : ∀ msg ip now, event ≠ .broadcastMessage msg ip now)
    (hidles : (w.state i).Idles node.state) (hloc : node.loc ≠ .stopped) :
    ∃ w', w.Proceeds w' ∧ w'.Turning d ring now ∧ w.Moves i event out w' ∧ w'.node i = node := by
  obtain ⟨w', hstep, hmoves, hupdate⟩ := World.exists_step hnode hoffers haddressed
  have hself : w'.node i = node := by rw [hupdate, Function.update_self]
  have hfresh : w.RequestsFresh (i, event) := by
    refine ⟨fun request ip now hrequest => absurd hrequest (hevent _ ip now), fun hcompletes => ?_⟩
    have hactive := hcompletes.1
    rw [h.idle] at hactive
    cases hactive
  have hproceeds : w.Proceeds w' := by
    refine ⟨.tail .refl hfresh hstep, fun j => ?_⟩
    by_cases hj : j = i
    · subst hj
      rw [World.state, World.state, hself]
      exact hidles
    · rw [hmoves.others j hj]
      exact .refl _
  refine ⟨w', hproceeds, h.proceeds hproceeds fun j hj => ?_, hmoves, hself⟩
  by_cases hji : j = i
  · rwa [hji, hself]
  · rw [hupdate, Function.update_of_ne hji]
    rw [hmoves.others j hji] at hj
    exact h.running j hj

/-- One step between two turns, after which the node is at the next program
point with the same messages to receive. -/
theorem World.Turning.exists_restStep (h : w.Turning d ring now)
    (hjoined : (w.state i).joined = true)
    (htoken : (w.node i).loc = .token → (w.state i).haveToken = false) :
    ∃ w' out, w.Proceeds w' ∧ w'.Turning d ring now ∧
      (w.node i).loc.Rests now (w.state i) (w'.state i) out ∧ w'.inbox i = w.inbox i ∧
      ((w.node i).loc.restEvent now).goesTo (w.node i).loc = some (w'.node i).loc := by
  have hloc := h.running i hjoined
  obtain ⟨after, hgoes, hafter⟩ := Loc.restEvent_goesTo now hloc
  obtain ⟨state, out, hhandle, hrests⟩ :=
    Loc.restEvent_handle now hloc hjoined (h.idle i) htoken
  have hnode : (w.node i).step ((w.node i).loc.restEvent now) = some (⟨state, after⟩, out) := by
    simp only [Node.step, hgoes]
    rw [show (w.node i).state = w.state i from rfl, hhandle]
  have hnone : ∀ self, delivered self out = [] := by
    intro self
    refine List.filterMap_eq_nil_iff.mpr fun effect hmem => ?_
    obtain ⟨dst, msg, rfl⟩ := hrests.lost effect hmem
    rfl
  have haddressed : w.Addressed out := by
    intro dst hmem
    obtain ⟨effect, hmem, hreached⟩ := List.mem_filterMap.mp hmem
    obtain ⟨_, msg, rfl⟩ := hrests.lost effect hmem
    cases hreached
  have hoffers : w.Offers i ((w.node i).loc.restEvent now) := by
    cases (w.node i).loc <;> trivial
  have hquiet : ((w.node i).loc.restEvent now).takeFrom (w.inbox i) = w.inbox i := by
    cases (w.node i).loc <;> rfl
  have hevent : ∀ msg ip now', (w.node i).loc.restEvent now ≠ .broadcastMessage msg ip now' := by
    intro msg ip now' heq
    cases hat : (w.node i).loc <;> rw [hat] at heq <;> cases heq
  obtain ⟨w', hproceeds, hturning, hmoves, hself⟩ :=
    h.exists_step hnode hoffers haddressed hevent hrests.idles hafter
  refine ⟨w', out, hproceeds, hturning, ?_, ?_, ?_⟩
  · rwa [show w'.state i = state from congrArg Node.state hself]
  · rw [hmoves.inbox_self, hquiet, hnone, List.append_nil]
  · rw [hself, hgoes]

/-- The loop of a joined node gets to a program point. Only a node without the
token gets past the point at which it would pass it on. -/
theorem World.Turning.exists_walk (h : w.Turning d ring now)
    (hjoined : (w.state i).joined = true) (target : Loc) (rank : Loc → Nat)
    (hrank : ∀ loc after, (loc.restEvent now).goesTo loc = some after → loc ≠ target →
      rank after < rank loc)
    (htarget : target = .token ∨ (w.state i).haveToken = false) :
    ∃ w', w.Proceeds w' ∧ w'.Turning d ring now ∧ (w'.node i).loc = target ∧
      (w'.state i).haveToken = (w.state i).haveToken ∧ w'.inbox i = w.inbox i := by
  -- by the program points that are left on the way
  induction hleft : rank (w.node i).loc using Nat.strongRecOn generalizing w with
  | ind left ih =>
      by_cases hat : (w.node i).loc = target
      · exact ⟨w, .refl w, h, hat, rfl, rfl⟩
      · obtain ⟨mid, out, hfirst, hmid, hrests, hinbox, hgoes⟩ :=
          h.exists_restStep hjoined (by
            intro htoken
            rcases htarget with rfl | hnot
            · exact absurd htoken hat
            · exact hnot)
        have hless := hrank _ _ hgoes hat
        have hheld := hrests.haveToken
        obtain ⟨w', hsecond, hturning, hthere, hholds, hsame⟩ :=
          ih _ (hleft ▸ hless) hmid ((hfirst.idles i).same.joined.trans hjoined)
            (by rwa [hheld]) rfl
        exact ⟨w', hfirst.trans hsecond, hturning, hthere, hholds.trans hheld,
          hsame.trans hinbox⟩

/-- The queue of a joined node without the token expires before the node
receives. -/
theorem World.Turning.exists_receiving (h : w.Turning d ring now)
    (hjoined : (w.state i).joined = true) (hnot : (w.state i).haveToken = false) :
    ∃ w', w.Proceeds w' ∧ w'.Turning d ring now ∧ (w'.node i).loc = .unicast ∧
      (w'.state i).haveToken = false ∧ w'.inbox i = w.inbox i ∧ (w'.state i).joinState.Bare := by
  obtain ⟨early, hfirst, hearly, hprune, hholds, hinbox⟩ :=
    h.exists_walk hjoined .prune Loc.toPrune
      (fun loc after hgoes => (Loc.restEvent_nearer now hgoes).1) (.inr hnot)
  have hjoined' := (hfirst.idles i).same.joined.trans hjoined
  obtain ⟨mid, out, hsecond, hmid, hrests, hinbox', _⟩ :=
    hearly.exists_restStep hjoined' (by
      rw [hprune]
      exact fun hat => by cases hat)
  have hbare : (mid.state i).joinState.Bare := by
    rw [hrests.pruned hprune]
    exact JoinState.pruneJoins_empties (hearly.expired i)
  have hnot' : (mid.state i).haveToken = false := by rw [hrests.haveToken, hholds, hnot]
  obtain ⟨w', hthird, hturning, hunicast, hholds', hinbox''⟩ :=
    hmid.exists_walk ((hsecond.idles i).same.joined.trans hjoined') .unicast Loc.toUnicast
      (fun loc after hgoes => (Loc.restEvent_nearer now hgoes).2.1) (.inr hnot')
  exact ⟨w', hfirst.trans (hsecond.trans hthird), hturning, hunicast, hholds'.trans hnot',
    hinbox''.trans (hinbox'.trans hinbox), (hthird.idles i).queue.bare hbare⟩

/-- The token on its way to a joined node arrives, and nobody waits there. -/
theorem World.Turning.exists_arrival (h : w.Turning d ring now) {token : Token}
    (hmsg : .token token ∈ w.inbox i) :
    ∃ w', w.Proceeds w' ∧ w'.Turning d ring now ∧ (w'.state i).haveToken = true ∧
      (w'.state i).joinState.Bare := by
  have hone := reachable_oneToken h.reached
  have hjoined := hone.arrives i token hmsg
  obtain ⟨mid, hfirst, hmid, hat, _, hinbox, hbare⟩ :=
    h.exists_receiving hjoined (World.not_both hone.one hmsg)
  obtain ⟨joinState, hshrinks, htaken, _⟩ :=
    handleTokenUnicast_joined ((hfirst.idles i).same.joined.trans hjoined) token
  have hnode : (mid.node i).step (.unicastMessage (.token token) now (fun _ => true)) =
      some (⟨handleTokenUnicast (mid.state i) token, .unicastComplete⟩, []) := by
    simp only [Node.step, hat]
    rfl
  obtain ⟨w', hsecond, hturning, _, hself⟩ :=
    hmid.exists_step hnode (by
      change .token token ∈ mid.inbox i
      rwa [hinbox]) (by simp [World.Addressed]) (fun _ _ _ heq => by cases heq)
      (by
        rw [htaken]
        exact ⟨⟨rfl, rfl, rfl, rfl, rfl⟩, hshrinks⟩) (by simp)
  have hstate : w'.state i = handleTokenUnicast (mid.state i) token := congrArg Node.state hself
  refine ⟨w', hfirst.trans hsecond, hturning, ?_, (hsecond.idles i).queue.bare hbare⟩
  rw [hstate, htaken]

/-- The holder, with nobody waiting, hands the token to the next node. -/
theorem World.Turning.exists_turn (h : w.Turning d ring now)
    (hjoined : (w.state i).joined = true) (hheld : (w.state i).haveToken = true)
    (hbare : (w.state i).joinState.Bare) :
    ∃ w', w.Proceeds w' ∧ w'.Turning d ring now ∧ (w'.state (ring i)).haveToken = true ∧
      (w'.state (ring i)).joinState.Bare := by
  obtain ⟨mid, hfirst, hmid, hat, hholds, _⟩ :=
    h.exists_walk hjoined .token Loc.toToken
      (fun loc after hgoes => (Loc.restEvent_nearer now hgoes).2.2) (.inl rfl)
  have hjoined' := (hfirst.idles i).same.joined.trans hjoined
  have hcount : ¬ (mid.state i).joinState.count > 0 := by
    rw [(JoinState.bare_iff_count (hmid.counts i)).mp ((hfirst.idles i).queue.bare hbare)]
    decide
  have hforwards : handleTokenIfReady (mid.state i) now (fun _ => true) =
      ringOnToken (mid.state i) (fun _ => true) := by
    rw [handleTokenIfReady, if_neg (by simp [hjoined', hholds, hheld]),
      if_neg (by simp [hmid.idle]), if_neg hcount]
  have hnode : (mid.node i).step (.handleTokenIfReady now (fun _ => true)) =
      some (⟨(ringOnToken (mid.state i) (fun _ => true)).1, .ackSender⟩,
        (ringOnToken (mid.state i) (fun _ => true)).2) := by
    simp only [Node.step, hat, Event.goesTo, Event.handle]
    rw [show (mid.node i).state = mid.state i from rfl, hforwards]
  have hcurrent := fun j => (reachable_identity hmid.reached j).1
  have hnext := hmid.next i hjoined'
  obtain ⟨reports, sent, cliPending, haveCliPending, hreports, _, heq⟩ :=
    ringOnToken_cases (mid.state i) (fun _ => true)
  obtain ⟨last, hsecond, hlast, hmoves, _⟩ :=
    hmid.exists_step hnode trivial
      (World.addressed_ringOnToken ⟨ring i, hnext.trans (hcurrent _).symm⟩)
      (fun _ _ _ heq => by cases heq)
      (by
        rw [heq]
        exact ⟨⟨rfl, rfl, rfl, rfl, rfl⟩, .refl _⟩) (by simp)
  have hmsg : .token sent ∈ last.inbox (ring i) := by
    refine hmoves.mem_inbox_of_sent ?_
    rw [heq, hcurrent, ← hnext]
    exact List.mem_append_right _ (List.mem_singleton_self _)
  obtain ⟨w', hthird, hturning, harrived⟩ := hlast.exists_arrival hmsg
  exact ⟨w', hfirst.trans (hsecond.trans hthird), hturning, harrived⟩

/-- The token can go any number of nodes further. -/
theorem World.Turning.exists_turns (h : w.Turning d ring now)
    (hjoined : (w.state i).joined = true) (hheld : (w.state i).haveToken = true)
    (hbare : (w.state i).joinState.Bare) (n : Nat) :
    ∃ w', w.Proceeds w' ∧ w'.Turning d ring now ∧ (w'.state ((ring ^ n) i)).haveToken = true ∧
      (w'.state ((ring ^ n) i)).joinState.Bare := by
  induction n with
  | zero => exact ⟨w, .refl w, h, hheld, hbare⟩
  | succ n ih =>
      obtain ⟨mid, hfirst, hmid, hheld', hbare'⟩ := ih
      have hmember : (mid.state ((ring ^ n) i)).joined = true :=
        hmid.cycle.1.mapsTo.perm_pow n ((hfirst.idles i).same.joined.trans hjoined)
      obtain ⟨w', hsecond, hturning, harrived⟩ := hmid.exists_turn hmember hheld' hbare'
      rw [← Equiv.Perm.mul_apply, ← pow_succ'] at harrived
      exact ⟨w', hfirst.trans hsecond, hturning, harrived⟩

/-- A state with no join in flight, in which the joined nodes run. -/
theorem turning_of_reaches (h : Lts.Reaches World.step World.RequestsFresh d.start w)
    (hfew : w.commitVersions.length < 2 ^ 32)
    (hrunning : ∀ i, (w.state i).joined = true → (w.node i).loc ≠ .stopped)
    (hidle : ∀ i, (w.state i).joinInflight.active = false) :
    ∃ ring now, w.Turning d ring now ∧ ∃ i, (w.state i).joined = true ∧ w.TokenAt i := by
  obtain ⟨r, _, hshows⟩ := reaches_shows h hfew
  obtain ⟨hcycle, hneighbours⟩ := hshows.ring.of_none_active hidle
  obtain ⟨now, hexpired⟩ := w.exists_expiry joinPendingTtlS
  exact ⟨r.next, now, ⟨h.weaken fun _ _ _ => trivial, hcycle, fun i hi => (hneighbours i hi).2,
    hidle, hrunning, (reaches_grounded h hfew).accounted.counts, hexpired⟩, r.place,
    ((hshows.nodes r.place).mp r.place_mem).1, hshows.place⟩

/-- Whatever joins a run of fresh steps has seen, once none is in flight, the
joined nodes run and nobody waits at the node with the token, the token can
reach every node that has joined. The ring stays as it is, and the same can be
said of the state in which the token is there. -/
theorem token_can_reach_joined_node (d : Deployment ι) (w : World ι)
    (h : Lts.Reaches World.step World.RequestsFresh d.start w)
    (hfew : w.commitVersions.length < 2 ^ 32)
    (hrunning : ∀ i, (w.state i).joined = true → (w.node i).loc ≠ .stopped)
    (hidle : ∀ i, (w.state i).joinInflight.active = false)
    (hqueue : ∀ i, (w.state i).haveToken = true → (w.state i).joinState.count = 0) (k : ι)
    (hk : (w.state k).joined = true) :
    ∃ w', Lts.Reaches World.step World.RequestsFresh w w' ∧ (w'.state k).haveToken = true ∧
      (∀ i, (w.state i).SameRing (w'.state i)) ∧
      (∀ i, (w'.state i).joined = true → (w'.node i).loc ≠ .stopped) ∧
      ∀ i, (w'.state i).haveToken = true → (w'.state i).joinState.count = 0 := by
  obtain ⟨ring, now, hturning, i, hi, hat⟩ := turning_of_reaches h hfew hrunning hidle
  have hheld : ∃ mid, w.Proceeds mid ∧ mid.Turning d ring now ∧ (mid.state i).haveToken = true ∧
      (mid.state i).joinState.Bare := by
    rcases hat with hholds | ⟨token, hmsg⟩
    · exact ⟨w, .refl w, hturning, hholds,
        (JoinState.bare_iff_count (hturning.counts i)).mpr (hqueue i hholds)⟩
    · exact hturning.exists_arrival hmsg
  obtain ⟨mid, hfirst, hmid, hholds, hbare⟩ := hheld
  have hi' : (mid.state i).joined = true := (hfirst.idles i).same.joined.trans hi
  have hk' : (mid.state k).joined = true := (hfirst.idles k).same.joined.trans hk
  obtain ⟨n, rfl⟩ := hmid.cycle.exists_pow_eq' (Set.toFinite _) hi' hk'
  obtain ⟨w', hsecond, hlast, hthere, hempty⟩ := hmid.exists_turns hi' hholds hbare n
  have hproceeds := hfirst.trans hsecond
  refine ⟨w', hproceeds.reaches, hthere, fun j => (hproceeds.idles j).same, hlast.running,
    fun j hj => (JoinState.bare_iff_count (hlast.counts j)).mp ?_⟩
  rwa [World.place_unique (reachable_oneToken hlast.reached).one (.inl hj) (.inl hthere)]

/-- After the join of `B` the token can come back to `A`. -/
theorem pair_token_comes_back :
    ∃ w w', Lts.Reaches World.step World.RequestsFresh Deployment.pair.start w ∧
      w.commitVersions = [1] ∧ (∀ i, (w.state i).joined = true) ∧
      Lts.Reaches World.step World.RequestsFresh w w' ∧ (w'.state 0).haveToken = true := by
  obtain ⟨w, hreach, hcommits, hjoined, hidle, hrest⟩ := pairJoins_fresh
  have hfew : w.commitVersions.length < 2 ^ 32 := by
    rw [hcommits]
    exact Nat.one_lt_two_pow (by decide)
  obtain ⟨w', hmore, hheld, _⟩ := token_can_reach_joined_node Deployment.pair w hreach hfew
    (fun i _ => (hrest i).1) hidle (fun i _ => (hrest i).2) 0 (hjoined 0)
  exact ⟨w, w', hreach, hcommits, hjoined, hmore, hheld⟩

end TokenRing
