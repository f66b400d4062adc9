import TokenRing.Cluster.Deliveries
import TokenRing.Cluster.Token

/-!
The messages of the users in the whole system, joins and failed sends
included. The token is a channel for one message: what was attached, at
whatever nodes, has been reported in the same order, but for the one message in
the token. The exception is a failed send at a node that has just taken or
attached a message: its retry reports the message again, or forgets it.
-/

namespace TokenRing

/-- What a user sends: the text and the two names. -/
structure UserMessage where
  data : Bytes
  sender : NodeName
  receiver : NodeName
deriving DecidableEq

/-- The message in a token, if there is one. -/
def Token.messages (token : Token) : List UserMessage :=
  if token.isEmpty then [] else [⟨token.data, token.sender, token.receiver⟩]

variable {ι : Type*}

/-- The messages that the nodes attached, in order. -/
def messagesAttached (log : List (RingEvent ι)) : List UserMessage :=
  log.flatMap (fun event =>
    match event with
    | .attached _ record => record.messages
    | _ => [])

/-- The messages that the nodes reported as received, in order. -/
def messagesReceived (log : List (RingEvent ι)) : List UserMessage :=
  log.flatMap (fun event =>
    match event with
    | .received _ token => token.messages
    | _ => [])

/-- The step is not a failed send of a token that the node has just emptied or
filled. -/
def RetriesUnchanged (run : World ι × List (RingEvent ι)) (label : ι × Event) : Prop :=
  ∀ now ok, label.2 = .handleTokenIfReady now ok → ok 0 = false →
    (run.1.state label.1).joined = true → (run.1.state label.1).haveToken = true →
    (run.1.state label.1).joinInflight.active = false →
    ¬ (run.1.state label.1).joinState.count > 0 →
    (run.1.state label.1).holdsOwn = false ∧
      ((run.1.state label.1).haveCliPending = false ∨
        (run.1.state label.1).tokenIn.isEmpty = false)

/-- Node `i` holds the token with this content, or has it in its inbox. -/
def World.TokenIs (w : World ι) (i : ι) (token : Token) : Prop :=
  ((w.state i).haveToken = true ∧ (w.state i).tokenIn = token) ∨ .token token ∈ w.inbox i

@[simp] theorem messagesAttached_append (first second : List (RingEvent ι)) :
    messagesAttached (first ++ second) = messagesAttached first ++ messagesAttached second :=
  List.flatMap_append

@[simp] theorem messagesReceived_append (first second : List (RingEvent ι)) :
    messagesReceived (first ++ second) = messagesReceived first ++ messagesReceived second :=
  List.flatMap_append

section Local

variable {state state' : RingState} {event : Event} {out : List Effect}

theorem Token.messages_version (token : Token) (version : UInt32) :
    ({ token with topoVersion := version } : Token).messages = token.messages := rfl

/-- Effects without sends of a token and without reports show nothing. -/
theorem ringEvents_eq_nil (i : ι) (h : ∀ effect ∈ out, RingEvent.of i effect = none) :
    ringEvents i out = [] := List.filterMap_eq_nil_iff.mpr h

/-- A transition leaves the token and its message alone, takes a token in, or
is a call of `ring_on_token`. -/
theorem Transition.message_cases (h : Transition state event state' out) (i : ι) :
    (event.isToken = false ∧ ringEvents i out = [] ∧ state'.haveToken = state.haveToken ∧
      ∃ version, state'.tokenIn = { state.tokenIn with topoVersion := version }) ∨
    (∃ token now ok, event = .unicastMessage (.token token) now ok ∧ ringEvents i out = [] ∧
      (state.joined = false ∨ state'.haveToken = true ∧ state'.tokenIn = token)) ∨
    ∃ now ok, event = .handleTokenIfReady now ok ∧ state.joined = true ∧
      state.haveToken = true ∧ state.joinInflight.active = false ∧
      ¬ state.joinState.count > 0 ∧ state' = (ringOnToken state ok).1 ∧
      out = (ringOnToken state ok).2 := by
  have hanswers : ∀ {answers : List Effect}, OnlyAckAcks answers →
      ∀ effect ∈ answers, RingEvent.of i effect = none := by
    intro answers honly effect hmem
    obtain ⟨_, _, _, sent, rfl⟩ := honly effect hmem
    cases sent <;> rfl
  have haccepts : ∀ (joining : RingState) (ok : Nat → Bool),
      ∀ effect ∈ inflightSends joining ok, RingEvent.of i effect = none := by
    intro joining ok effect hmem
    rcases mem_inflightSends hmem with ⟨_, rfl⟩ | ⟨_, rfl⟩
    · cases ok 0 <;> rfl
    · cases ok 1 <;> rfl
  cases h with
  | idle event hevent => exact .inl ⟨hevent, rfl, rfl, _, rfl⟩
  | requestSent | recordRead | enqueued | commitSeen => exact .inl ⟨rfl, rfl, rfl, _, rfl⟩
  | queueShrunk event hevent => exact .inl ⟨hevent, rfl, rfl, _, rfl⟩
  | senderChanged event hevent => exact .inl ⟨hevent, rfl, rfl, _, rfl⟩
  | ackSent now ok sender hactive hgot hretries hwanes =>
      refine .inl ⟨rfl, ringEvents_eq_nil i fun effect hmem => ?_, rfl, _, rfl⟩
      rw [List.mem_singleton.mp hmem]
      cases ok 0 <;> rfl
  | acceptsSent now ok retries hactive =>
      exact .inl ⟨rfl, ringEvents_eq_nil i (haccepts state ok), rfl, _, rfl⟩
  | completed event hevent mid answers hactive hmid hprev hjoiner honly =>
      refine .inl ⟨hevent, ringEvents_eq_nil i fun effect hmem => ?_, ?_, ?_⟩
      · rcases List.mem_append.mp hmem with hcommit | hanswer
        · rw [List.mem_singleton.mp hcommit]
          rfl
        · exact hanswers honly effect hanswer
      · rcases hmid with rfl | ⟨_, _, _, _, rfl⟩ <;> rfl
      · rcases hmid with rfl | ⟨_, _, _, _, rfl⟩ <;> exact ⟨_, rfl⟩
  | ackAnswered requestId fromName now ok answers honly =>
      exact .inl ⟨rfl, ringEvents_eq_nil i (hanswers honly), rfl, _, rfl⟩
  | confirmed fromName now ok answers hactive honly =>
      exact .inl ⟨rfl, ringEvents_eq_nil i (hanswers honly), rfl, _, rfl⟩
  | tokenStored token now ok hunjoined =>
      exact .inr (.inl ⟨token, now, ok, rfl, rfl, .inl hunjoined⟩)
  | tokenTaken token now ok joinState hjoined hshrinks hempty =>
      exact .inr (.inl ⟨token, now, ok, rfl, rfl, .inr ⟨rfl, rfl⟩⟩)
  | acceptJoined accept now ok joinState sentAt hshrinks hself hunjoined hid =>
      refine .inl ⟨rfl, ringEvents_eq_nil i fun effect hmem => ?_, rfl, _, rfl⟩
      rw [List.mem_singleton.mp hmem]
      cases ok 0 <;> rfl
  | acceptLinked accept now ok joinState sentAt hshrinks hother hself hnext =>
      refine .inl ⟨rfl, ringEvents_eq_nil i fun effect hmem => ?_, rfl, _, rfl⟩
      rw [List.mem_singleton.mp hmem]
      cases ok 0 <;> rfl
  | commitCompleted newName topoVersion ip now joinState sender hshrinks hempty hsender hactive =>
      exact .inl ⟨rfl, rfl, rfl, _, rfl⟩
  | joinStarted now ok pending joinState hjoined htoken hidle hpop =>
      exact .inl ⟨rfl, ringEvents_eq_nil i (haccepts _ ok), rfl, _, rfl⟩
  | forwarded now ok hjoined htoken hidle hcount =>
      exact .inr (.inr ⟨now, ok, rfl, hjoined, htoken, hidle, hcount, rfl, rfl⟩)

/-- What a call of `ring_on_token` with a successful send does to the messages:
the node reports its own one, and the token that it sends has the new one. -/
structure MovesMessage (i : ι) (state : RingState) (out : List Effect) (sent : Token) : Prop where
  messages : state.tokenIn.messages ++ messagesAttached (ringEvents i out) =
    messagesReceived (ringEvents i out) ++ sent.messages
  reports : ∀ j token, .received j token ∈ ringEvents i out →
    j = i ∧ token.isEmpty = false ∧ token.receiver = state.config.current.nodeName
  sends : .unicast state.config.next (.token sent) true ∈ out

theorem ringOnToken_messages (i : ι) (state : RingState) {ok : Nat → Bool} (hok : ok 0 = true) :
    ∃ sent, MovesMessage i state (ringOnToken state ok).2 sent := by
  have hown : ∀ {out : List Effect}, state.holdsOwn = true →
      (∀ j token, .received j token ∈ ringEvents i out → j = i ∧ token = state.tokenIn) →
      ∀ j token, .received j token ∈ ringEvents i out →
        j = i ∧ token.isEmpty = false ∧ token.receiver = state.config.current.nodeName := by
    intro out hholds honly j token hmem
    obtain ⟨rfl, rfl⟩ := honly j token hmem
    exact ⟨rfl, by simpa [RingState.holdsOwn] using hholds⟩
  cases hholds : state.holdsOwn with
  | true =>
      have hfull : state.tokenIn.isEmpty = false := by
        simp only [RingState.holdsOwn, Bool.and_eq_true, Bool.not_eq_true'] at hholds
        exact hholds.1
      cases hcli : state.haveCliPending with
      | false =>
          rw [ringOnToken_empties hholds hcli, hok]
          refine ⟨state.emptied, ?_, hown hholds ?_, by simp⟩
          · simp [ringEvents, RingEvent.of, messagesAttached, messagesReceived, Token.messages,
              RingState.emptied]
          · simp [ringEvents, RingEvent.of]
      | true =>
          rw [ringOnToken_replaces hholds hcli, hok]
          refine ⟨state.record, ?_, hown hholds ?_, by simp⟩
          · simp [ringEvents, RingEvent.of, messagesAttached, messagesReceived, RingState.record,
              Token.messages_version]
          · simp [ringEvents, RingEvent.of]
  | false =>
      by_cases hattach : state.tokenIn.isEmpty = true ∧ state.haveCliPending = true
      · obtain ⟨hempty, hcli⟩ := hattach
        rw [ringOnToken_attaches hempty hcli, hok]
        refine ⟨state.record, ?_, by simp [ringEvents, RingEvent.of], by simp⟩
        have hnone : state.tokenIn.messages = [] := by simp [Token.messages, hempty]
        simp [ringEvents, RingEvent.of, messagesAttached, messagesReceived, RingState.record,
          Token.messages_version, hnone]
      · have hno : state.haveCliPending = false ∨ state.tokenIn.isEmpty = false := by
          cases hcli : state.haveCliPending with
          | false => exact .inl rfl
          | true => exact .inr (by simpa [hcli] using hattach)
        rw [ringOnToken_passes hholds hno, hok]
        refine ⟨state.tokenIn, ?_, by simp [ringEvents, RingEvent.of], by simp⟩
        simp [ringEvents, RingEvent.of, messagesAttached, messagesReceived]

end Local

section World

variable {d : Deployment ι} {w w' : World ι} {i j : ι} {event : Event} {out : List Effect}
  {token : Token}

theorem World.TokenIs.place (h : w.TokenIs i token) :
    (w.state i).haveToken = true ∨ ∃ token, .token token ∈ w.inbox i :=
  h.imp And.left fun hmsg => ⟨token, hmsg⟩

/-- A step that does not touch the token leaves it where it is. -/
theorem World.TokenIs.stays (h : w.TokenIs i token) (hmoves : w.Moves j event out w')
    (hevent : event.isToken = false) (htoken : (w'.state j).haveToken = (w.state j).haveToken)
    (hsame : (w'.state j).tokenIn.messages = (w.state j).tokenIn.messages) :
    ∃ token', w'.TokenIs i token' ∧ token'.messages = token.messages := by
  by_cases hij : i = j
  · subst hij
    rcases h with ⟨hholds, rfl⟩ | hmsg
    · exact ⟨(w'.state i).tokenIn, .inl ⟨htoken.trans hholds, rfl⟩, hsame⟩
    · refine ⟨token, .inr ?_, rfl⟩
      rw [hmoves.inbox_self]
      refine List.mem_append_left _ ?_
      cases event with
      | unicastMessage msg now ok =>
          refine (List.mem_erase_of_ne ?_).mpr hmsg
          rintro rfl
          cases hevent
      | _ => exact hmsg
  · refine ⟨token, h.imp (fun hholds => ?_) (fun hmsg => ?_), rfl⟩
    · rwa [hmoves.others i hij]
    · rw [hmoves.inbox_other i hij]
      exact List.mem_append_left _ hmsg

variable [Fintype ι]

/-- There is only one token to be at two places. -/
theorem World.TokenIs.unique {token' : Token} (hone : w.tokens = 1) (h : w.TokenIs i token)
    (h' : w.TokenIs j token') : i = j ∧ token = token' := by
  classical
  obtain rfl : i = j := World.place_unique hone h.place h'.place
  refine ⟨rfl, ?_⟩
  have hboth : ∀ {found : Token}, .token found ∈ w.inbox i → (w.state i).haveToken ≠ true := by
    intro found hmsg hholds
    rw [World.not_both hone hmsg] at hholds
    cases hholds
  rcases h with ⟨hholds, rfl⟩ | hmsg
  · rcases h' with ⟨_, rfl⟩ | hmsg'
    · rfl
    · exact absurd hholds (hboth hmsg')
  · rcases h' with ⟨hholds', rfl⟩ | hmsg'
    · exact absurd hholds' (hboth hmsg)
    · -- two tokens in one inbox would be counted twice
      by_contra hne
      have hle := Finset.single_le_sum
        (f := fun k => (w.state k).haveToken.toNat + (w.inbox k).countP UnicastMsg.isToken)
        (fun k _ => Nat.zero_le _) (Finset.mem_univ i)
      have hother : .token token' ∈ (w.inbox i).erase (.token token) := by
        refine (List.mem_erase_of_ne fun heq => hne ?_).mpr hmsg'
        cases heq
        rfl
      have hperm := List.perm_cons_erase hmsg
      have hcount := hperm.countP_eq UnicastMsg.isToken
      have hpos : 0 < ((w.inbox i).erase (.token token)).countP UnicastMsg.isToken :=
        List.countP_pos_iff.mpr ⟨_, hother, rfl⟩
      rw [List.countP_cons] at hcount
      simp only [UnicastMsg.isToken, if_true] at hcount
      unfold World.tokens at hone
      omega

/-- What holds of a run with its log: the messages attached are those reported
and the one in the token. -/
def MessagesKept (d : Deployment ι) (run : World ι × List (RingEvent ι)) : Prop :=
  (∃ i token, run.1.TokenIs i token ∧
    messagesAttached run.2 = messagesReceived run.2 ++ token.messages) ∧
  ∀ i token, .received i token ∈ run.2 →
    token.isEmpty = false ∧ token.receiver = (d.self i).nodeName

variable [DecidableEq ι]

theorem MessagesKept.step {run run' : World ι × List (RingEvent ι)} {label : ι × Event}
    (h : MessagesKept d run) (hone : run.1.OneToken)
    (hcurrent : ∀ i, (run.1.state i).config.current = d.self i)
    (hstep : World.loggedStep run label = some run') (hguard : RetriesUnchanged run label) :
    MessagesKept d run' := by
  obtain ⟨⟨i, token, hat, hlog⟩, hreports⟩ := h
  obtain ⟨out, hmoves, hmore⟩ := World.loggedStep_some hstep
  rcases hmoves.transition.message_cases label.1 with ⟨hevent, hnone, htoken, version, hsame⟩ |
    ⟨arrived, now, ok, hevent, hnone, hcase⟩ |
    ⟨now, ok, hevent, hjoined, htoken, hidle, hcount, hafter, hout⟩
  · obtain ⟨token', hat', hmessages⟩ := hat.stays hmoves hevent htoken
      (by rw [hsame, Token.messages_version])
    rw [MessagesKept, hmore, hnone, List.append_nil]
    exact ⟨⟨i, token', hat', by rw [hmessages, hlog]⟩, hreports⟩
  · have hoffers : .token arrived ∈ run.1.inbox label.1 := by
      have hoffers := hmoves.offers
      rw [hevent] at hoffers
      exact hoffers
    obtain ⟨rfl, rfl⟩ := hat.unique hone.one (.inr hoffers)
    rw [MessagesKept, hmore, hnone, List.append_nil]
    rcases hcase with hunjoined | htaken
    · rw [hone.arrives _ _ hoffers] at hunjoined
      cases hunjoined
    · exact ⟨⟨label.1, token, .inl htaken, hlog⟩, hreports⟩
  · obtain ⟨rfl, rfl⟩ := hat.unique hone.one (.inl ⟨htoken, rfl⟩)
    cases hok : ok 0 with
    | true =>
        obtain ⟨sent, hturn⟩ := ringOnToken_messages label.1 (run.1.state label.1) hok
        rw [← hout] at hturn
        obtain ⟨j, hj⟩ := hmoves.addressed _ (List.mem_filterMap.mpr ⟨_, hturn.sends, rfl⟩)
        rw [MessagesKept, hmore]
        refine ⟨⟨j, sent, .inr ?_, ?_⟩, fun k found hmem => ?_⟩
        · refine hmoves.mem_inbox_of_sent ?_
          rw [hj]
          exact hturn.sends
        · rw [messagesAttached_append, messagesReceived_append, hlog, List.append_assoc,
            hturn.messages, List.append_assoc]
        · rcases List.mem_append.mp hmem with hold | hnew
          · exact hreports k found hold
          · obtain ⟨rfl, hfull, hreceiver⟩ := hturn.reports k found hnew
            exact ⟨hfull, by rw [hreceiver, hcurrent]⟩
    | false =>
        -- the token only passes through, and stays for the retry
        obtain ⟨hother, hno⟩ := hguard now ok hevent hok hjoined htoken hidle hcount
        have heq := @ringOnToken_passes _ ok hother hno
        rw [heq, hok] at hafter hout
        have hnone : ringEvents label.1 out = [] := by
          rw [hout]
          rfl
        rw [MessagesKept, hmore, hnone, List.append_nil]
        refine ⟨⟨label.1, _, .inl ⟨?_, ?_⟩, hlog⟩, hreports⟩
        · rw [hafter]
          exact htoken
        · rw [hafter]
          rfl

theorem World.step_of_loggedStep {run run' : World ι × List (RingEvent ι)} {label : ι × Event}
    (h : World.loggedStep run label = some run') : run.1.step label = some run'.1 := by
  unfold World.loggedStep at h
  split at h
  · rename_i hstep
    cases h
    exact hstep
  · cases h

theorem reachable_of_logged {run : World ι × List (RingEvent ι)}
    {guard : World ι × List (RingEvent ι) → ι × Event → Prop}
    (h : Lts.Reaches World.loggedStep guard (d.start, []) run) :
    Lts.Reachable World.step d.start run.1 := by
  refine h.invariant (fun run => Lts.Reachable World.step d.start run.1) .refl ?_
  intro run label run' hreach _ hstep
  exact hreach.tail trivial (World.step_of_loggedStep hstep)

theorem messagesKept_of_reaches {run : World ι × List (RingEvent ι)}
    (h : Lts.Reaches World.loggedStep RetriesUnchanged (d.start, []) run) :
    MessagesKept d run := by
  refine h.invariant_on (MessagesKept d) ?_ ?_
  · refine ⟨⟨d.starter, firstToken, .inl ?_, rfl⟩, by simp⟩
    simp [Deployment.start, World.state, Node.start, d.starter_member, maybeSendInitialToken,
      RingState.init, firstToken]
  · intro run label run' hreach hkept hguard hstep
    have hreachable := reachable_of_logged hreach
    exact hkept.step (reachable_oneToken hreachable)
      (fun i => (reachable_identity hreachable i).1) hstep hguard

/-- In every run with any joins, in which a send that fails is one of a token
that only passes through, the messages attached at all nodes are, in order, the
messages reported as received and the one in the token, if it is full; and each
is reported by the node it is addressed to. -/
theorem messages_reported_in_order (d : Deployment ι) (run : World ι × List (RingEvent ι))
    (h : Lts.Reaches World.loggedStep RetriesUnchanged (d.start, []) run) :
    (∃ i token, run.1.TokenIs i token ∧
      messagesAttached run.2 = messagesReceived run.2 ++ token.messages) ∧
    ∀ i token, .received i token ∈ run.2 →
      token.isEmpty = false ∧ token.receiver = (d.self i).nodeName :=
  messagesKept_of_reaches h

/-- `A` attaches a message, and `B` reports it. -/
theorem duo_message_in_order :
    ∃ run i token, Lts.Reaches World.loggedStep RetriesUnchanged (Deployment.duo.start, []) run ∧
      run.1.TokenIs i token ∧ messagesReceived run.2 = recordForB.messages ∧
      messagesAttached run.2 = messagesReceived run.2 ++ token.messages := by
  have hexec : (Lts.exec World.loggedStep (Deployment.duo.start, [])
      (fullPass 0 none (some recordForB) ++ fullPass 1 (some recordForB) none)).map
      (fun run => messagesReceived run.2) = some recordForB.messages := by
    decide +kernel
  obtain ⟨run, hrun, hreceived⟩ := Option.map_eq_some_iff.mp hexec
  have hreach : Lts.Reaches World.loggedStep RetriesUnchanged (Deployment.duo.start, []) run := by
    have hall : Lts.Reaches World.loggedStep SendsSucceed (Deployment.duo.start, []) run := by
      refine Lts.reaches_of_exec ?_ hrun
      intro label hmem _
      rcases List.mem_append.mp hmem with hfirst | hsecond
      · exact fullPass_sends label hfirst
      · exact fullPass_sends label hsecond
    refine hall.weaken fun run label hsends now ok hevent hfailed => ?_
    unfold SendsSucceed at hsends
    rw [hevent] at hsends
    rw [hsends 0] at hfailed
    cases hfailed
  obtain ⟨⟨i, token, hat, hlog⟩, _⟩ := messages_reported_in_order Deployment.duo run hreach
  exact ⟨run, i, token, hreach, hat, hreceived, hlog⟩

end World

end TokenRing
