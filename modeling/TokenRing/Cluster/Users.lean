import TokenRing.CliQueue
import TokenRing.Cluster.Messages
import TokenRing.WriterFifo

/-!
The whole system with its users: writers put records into the FIFO of a node at
any time, and `handle_cli_if_ready` takes them out. From the arguments of a
writer to the report at another node a message is neither invented nor changed.
-/

namespace TokenRing

/-- A writer at a node, or a step of a node. `token` is what stands in the
memory that a `read` writes to. -/
inductive UserLabel (ι : Type*) where
  | writer (i : ι) (argv : List Bytes) (nodeName : Option Bytes) (fifoWritable : Bool)
    (slack : Slack)
  | node (i : ι) (event : Event) (token : Bytes)

/-- A run with its FIFOs, the tokens that the writers at each node wrote, and
those that the node read. -/
structure UserRun (ι : Type*) where
  run : World ι × List (RingEvent ι)
  fifo : ι → Bytes
  written : ι → List Token
  read : ι → List Token

/-- The record that the event takes out of the FIFO. -/
def Event.recordRead (state : RingState) : Event → Option Token
  | .cliRecord record => if state.tokenIn.isEmpty then some record else none
  | _ => none

/-- The records that node `i` attached. -/
def attachedAt {ι : Type*} [DecidableEq ι] (i : ι) (log : List (RingEvent ι)) : List Token :=
  log.filterMap (fun event =>
    match event with
    | .attached j record => if j = i then some record else none
    | _ => none)

/-- The bytes of records that stand in a FIFO. -/
def fifoBytes (order : ByteOrder) (waiting : List (Token × Slack)) : Bytes :=
  waiting.flatMap (fun entry => entry.1.payload order entry.2)

/-- The token is a text in its buffer, and its message, if it has one, was
written by a writer. -/
structure Token.Carried {ι : Type*} (written : ι → List Token) (token : Token) : Prop where
  text : token.IsText
  written : token.isEmpty = false →
    ∃ j, ∃ record ∈ written j, record.messages = token.messages

variable {ι : Type*} [DecidableEq ι]

/-- Every token in the system carries a message that was written, and what a
node reported was addressed to it. -/
structure Origins (d : Deployment ι) (written : ι → List Token)
    (run : World ι × List (RingEvent ι)) : Prop where
  held : ∀ i, (run.1.state i).haveToken = true → (run.1.state i).tokenIn.Carried written
  inbox : ∀ i token, .token token ∈ run.1.inbox i → token.Carried written
  received : ∀ i token, .received i token ∈ run.2 →
    token.Carried written ∧ token.isEmpty = false ∧ token.receiver = (d.self i).nodeName

def Deployment.userStart (d : Deployment ι) : UserRun ι :=
  ⟨(d.start, []), fun _ => [], fun _ => [], fun _ => []⟩

/-- One step. A `read` follows a `select` that found the FIFO readable. -/
def UserRun.step [Fintype ι] (order : ι → ByteOrder) (r : UserRun ι) :
    UserLabel ι → Option (UserRun ι)
  | .writer i argv nodeName fifoWritable slack =>
      match writerMain argv nodeName fifoWritable with
      | none => some r
      | some token =>
          some { r with
            fifo := Function.update r.fifo i (r.fifo i ++ token.payload (order i) slack)
            written := Function.update r.written i (r.written i ++ [token]) }
  | .node i event token =>
      match World.loggedStep r.run (i, event), event.recordRead (r.run.1.state i) with
      | none, _ => none
      | some run, none => some { r with run := run }
      | some run, some record =>
          let (got, rest) := cliHandleRead (r.fifo i) token
          if r.fifo i ≠ [] ∧ token.length = sizeofToken ∧
              record = .ofPayload (order i) got then
            some ⟨run, Function.update r.fifo i rest, r.written,
              Function.update r.read i (r.read i ++ [record])⟩
          else
            none

/-- What a step of the system with its users is. -/
inductive UserRun.Moves [Fintype ι] (order : ι → ByteOrder) (r : UserRun ι) :
    UserLabel ι → UserRun ι → Prop where
  | refused (i : ι) (argv : List Bytes) (nodeName : Option Bytes) (fifoWritable : Bool)
      (slack : Slack) : Moves order r (.writer i argv nodeName fifoWritable slack) r
  | wrote (i : ι) (argv : List Bytes) (nodeName : Option Bytes) (fifoWritable : Bool)
      (slack : Slack) (token : Token) (htext : token.IsText) (hfull : token.isEmpty = false) :
      Moves order r (.writer i argv nodeName fifoWritable slack)
        { r with
          fifo := Function.update r.fifo i (r.fifo i ++ token.payload (order i) slack)
          written := Function.update r.written i (r.written i ++ [token]) }
  | quiet (i : ι) (event : Event) (token : Bytes) (run : World ι × List (RingEvent ι))
      (hstep : World.loggedStep r.run (i, event) = some run)
      (hnone : event.recordRead (r.run.1.state i) = none) :
      Moves order r (.node i event token) { r with run := run }
  | reads (i : ι) (token : Bytes) (run : World ι × List (RingEvent ι))
      (hstep : World.loggedStep r.run
        (i, .cliRecord (.ofPayload (order i) (cliHandleRead (r.fifo i) token).1)) = some run)
      (hempty : (r.run.1.state i).tokenIn.isEmpty = true) (hfifo : r.fifo i ≠ [])
      (hlength : token.length = sizeofToken) :
      Moves order r
        (.node i (.cliRecord (.ofPayload (order i) (cliHandleRead (r.fifo i) token).1)) token)
        ⟨run, Function.update r.fifo i (cliHandleRead (r.fifo i) token).2, r.written,
          Function.update r.read i
            (r.read i ++ [.ofPayload (order i) (cliHandleRead (r.fifo i) token).1])⟩

theorem Event.recordRead_some {state : RingState} {event : Event} {record : Token}
    (h : event.recordRead state = some record) :
    event = .cliRecord record ∧ state.tokenIn.isEmpty = true := by
  cases event with
  | cliRecord found =>
      change (if state.tokenIn.isEmpty then some found else none) = some record at h
      split at h
      · cases h
        exact ⟨rfl, ‹_›⟩
      · cases h
  | _ => cases h

theorem UserRun.moves_of_step [Fintype ι] {order : ι → ByteOrder} {r r' : UserRun ι}
    {label : UserLabel ι} (h : r.step order label = some r') : r.Moves order label r' := by
  cases label with
  | writer i argv nodeName fifoWritable slack =>
      unfold UserRun.step at h
      cases hwriter : writerMain argv nodeName fifoWritable with
      | none =>
          simp only [hwriter, Option.some.injEq] at h
          exact h ▸ .refused i argv nodeName fifoWritable slack
      | some token =>
          obtain ⟨_, _, _, _, hall⟩ := writerMain_writesAll hwriter
          simp only [hwriter, Option.some.injEq] at h
          exact h ▸ .wrote i argv nodeName fifoWritable slack token hall.text hall.full
  | node i event token =>
      unfold UserRun.step at h
      cases hstep : World.loggedStep r.run (i, event) with
      | none => simp [hstep] at h
      | some run =>
          cases hread : event.recordRead (r.run.1.state i) with
          | none =>
              simp only [hstep, hread, Option.some.injEq] at h
              exact h ▸ .quiet i event token run hstep hread
          | some record =>
              simp only [hstep, hread] at h
              split at h
              · rename_i hgood
                obtain ⟨rfl, hempty⟩ := Event.recordRead_some hread
                obtain ⟨hfifo, hlength, rfl⟩ := hgood
                cases h
                exact .reads i token run hstep hempty hfifo hlength
              · cases h

section Fifos

/-- The record at the front of a FIFO that is not empty. -/
theorem exists_front {order : ByteOrder} {waiting : List (Token × Slack)}
    (h : fifoBytes order waiting ≠ []) : ∃ entry rest, waiting = entry :: rest := by
  cases waiting with
  | nil => exact absurd rfl h
  | cons entry rest => exact ⟨entry, rest, rfl⟩

theorem attachedAt_append (i : ι) (first second : List (RingEvent ι)) :
    attachedAt i (first ++ second) = attachedAt i first ++ attachedAt i second :=
  List.filterMap_append

theorem attachedAt_ringEvents (i j : ι) (out : List Effect) :
    attachedAt i (ringEvents j out) = if j = i then recordsAttached out else [] := by
  unfold attachedAt ringEvents recordsAttached
  rw [List.filterMap_filterMap]
  split
  · rename_i heq
    apply List.filterMap_congr
    intro effect _
    cases effect with
    | unicast dst msg ok => cases msg <;> cases ok <;> rfl
    | attached record => simp [RingEvent.of, heq]
    | _ => rfl
  · rename_i hne
    apply List.filterMap_eq_nil_iff.mpr
    intro effect _
    cases effect with
    | unicast dst msg ok => cases msg <;> cases ok <;> rfl
    | attached record => simp [RingEvent.of, hne]
    | _ => rfl

/-- Every node's FIFO holds whole records: those that were written and not yet
read. What a node attached, and the record that waits, it has read. -/
structure UserRun.Fifos (order : ι → ByteOrder) (r : UserRun ι) : Prop where
  texts : ∀ i, ∀ token ∈ r.written i, token.IsText ∧ token.isEmpty = false
  whole : ∀ i, ∃ waiting : List (Token × Slack), r.fifo i = fifoBytes (order i) waiting ∧
    r.written i = r.read i ++ waiting.map Prod.fst
  attached : ∀ i,
    (attachedAt i r.run.2 ++ waitingRecord (r.run.1.state i)).Sublist (r.read i)

variable {order : ι → ByteOrder} {r r' : UserRun ι} {i : ι}

theorem UserRun.Fifos.read_prefix (h : r.Fifos order) (i : ι) : r.read i <+: r.written i := by
  obtain ⟨waiting, _, hwritten⟩ := h.whole i
  exact ⟨waiting.map Prod.fst, hwritten.symm⟩

/-- The record that waits in a node was written there. -/
theorem UserRun.Fifos.waits (h : r.Fifos order)
    (hcli : (r.run.1.state i).haveCliPending = true) :
    (r.run.1.state i).cliPending ∈ r.written i := by
  refine (h.read_prefix i).subset ((h.attached i).subset (List.mem_append_right _ ?_))
  simp [waitingRecord, hcli]

theorem UserRun.fifos_start (d : Deployment ι) : d.userStart.Fifos order := by
  refine ⟨by simp [Deployment.userStart], fun i => ⟨[], rfl, rfl⟩, fun i => ?_⟩
  have hnone : ((d.start.node i).state).haveCliPending = false := by
    obtain ⟨_, _, hstate⟩ := Node.start_state (d.config i) (d.member i)
      (decide (i = d.starter)) (d.requestId i)
    exact congrArg RingState.haveCliPending hstate
  simp [Deployment.userStart, attachedAt, waitingRecord, World.state, hnone]

variable [Fintype ι]

/-- What a step of the world does to the records of node `j`. -/
theorem attached_step {run run' : World ι × List (RingEvent ι)} {event : Event}
    (hstep : World.loggedStep run (i, event) = some run') (j : ι) :
    attachedAt j run'.2 ++ waitingRecord (run'.1.state j) =
        attachedAt j run.2 ++ waitingRecord (run.1.state j) ∨
      j = i ∧ ∃ record, event.recordRead (run.1.state i) = some record ∧
        attachedAt j run'.2 ++ waitingRecord (run'.1.state j) =
          attachedAt j run.2 ++ [record] := by
  obtain ⟨out, hmoves, hlog⟩ := World.loggedStep_some hstep
  rw [hlog, attachedAt_append, attachedAt_ringEvents]
  by_cases hj : j = i
  · subst hj
    rw [if_pos rfl]
    rcases hmoves.transition.records with ⟨_, hsame⟩ | ⟨record, hevent, hempty, _, hnone, hwaits⟩
    · left
      rw [List.append_assoc, hsame]
    · refine .inr ⟨rfl, record, ?_, ?_⟩
      · change event = .cliRecord record at hevent
        rw [hevent]
        simp [Event.recordRead, hempty]
      · rw [hnone, hwaits, List.append_nil]
  · left
    rw [if_neg (fun heq => hj heq.symm), List.append_nil, hmoves.others j hj]

theorem UserRun.Fifos.step {label : UserLabel ι} (h : r.Fifos order)
    (hmoves : r.Moves order label r') : r'.Fifos order := by
  cases hmoves with
  | refused => exact h
  | wrote i argv nodeName fifoWritable slack token htext hfull =>
      refine ⟨fun j found hmem => ?_, fun j => ?_, h.attached⟩
      · by_cases hj : j = i
        · subst hj
          simp only [Function.update_self, List.mem_append, List.mem_singleton] at hmem
          rcases hmem with hold | rfl
          · exact h.texts j found hold
          · exact ⟨htext, hfull⟩
        · simp only [Function.update_of_ne hj] at hmem
          exact h.texts j found hmem
      · obtain ⟨waiting, hfifo, hwritten⟩ := h.whole j
        by_cases hj : j = i
        · subst hj
          refine ⟨waiting ++ [(token, slack)], ?_, ?_⟩
          · simp [fifoBytes, hfifo]
          · simp [hwritten]
        · refine ⟨waiting, ?_, ?_⟩
          · simp only [Function.update_of_ne hj]
            exact hfifo
          · simp only [Function.update_of_ne hj]
            exact hwritten
  | quiet i event token run hstep hnone =>
      refine ⟨h.texts, h.whole, fun j => ?_⟩
      rcases attached_step hstep j with hsame | ⟨rfl, record, hread, _⟩
      · rw [hsame]
        exact h.attached j
      · rw [hnone] at hread
        cases hread
  | reads i token run hstep hempty hfifo hlength =>
      obtain ⟨waiting, hbytes, hwritten⟩ := h.whole i
      obtain ⟨⟨front, slack⟩, rest, rfl⟩ := exists_front (hbytes ▸ hfifo)
      have htext : front.IsText := (h.texts i front (by simp [hwritten])).1
      have hread : cliHandleRead (r.fifo i) token =
          (front.payload (order i) slack, fifoBytes (order i) rest) := by
        rw [hbytes]
        exact cliHandleRead_record htext (order i) slack _ hlength
      rw [hread] at hstep
      simp only [hread, htext.round_trip] at hstep ⊢
      refine ⟨h.texts, fun j => ?_, fun j => ?_⟩
      · by_cases hj : j = i
        · subst hj
          exact ⟨rest, by simp, by simp [hwritten]⟩
        · simp only [Function.update_of_ne hj]
          exact h.whole j
      · rcases attached_step hstep j with hsame | ⟨rfl, record, hrecord, hmore⟩
        · rw [hsame]
          by_cases hj : j = i
          · subst hj
            simp only [Function.update_self]
            exact (h.attached j).trans (List.sublist_append_left _ _)
          · simp only [Function.update_of_ne hj]
            exact h.attached j
        · have heq : record = front := by simpa [Event.recordRead, hempty] using hrecord.symm
          simp only [hmore, heq, Function.update_self]
          exact ((List.sublist_append_left _ _).trans (h.attached j)).append
            (List.Sublist.refl _)

end Fifos

section Messages

variable {d : Deployment ι} {written written' : ι → List Token} {i : ι} {token : Token}
  {run run' : World ι × List (RingEvent ι)}

omit [DecidableEq ι] in
theorem Token.Carried.version (h : token.Carried written) (version : UInt32) :
    ({ token with topoVersion := version } : Token).Carried written :=
  ⟨⟨h.text.short, h.text.noNul⟩, h.written⟩

omit [DecidableEq ι] in
theorem Token.Carried.mono (h : token.Carried written)
    (hmore : ∀ j, ∀ record ∈ written j, record ∈ written' j) : token.Carried written' := by
  refine ⟨h.text, fun hfull => ?_⟩
  obtain ⟨j, record, hmem, heq⟩ := h.written hfull
  exact ⟨j, record, hmore j record hmem, heq⟩

omit [DecidableEq ι] in
theorem Token.carried_empty (hdata : token.data = []) (hempty : token.isEmpty = true) :
    token.Carried written := by
  refine ⟨⟨?_, ?_⟩, fun hfull => ?_⟩
  · rw [hdata]
    decide
  · simp [hdata]
  · rw [hempty] at hfull
    cases hfull

omit [DecidableEq ι] in
theorem Origins.mono (h : Origins d written run)
    (hmore : ∀ j, ∀ record ∈ written j, record ∈ written' j) : Origins d written' run :=
  ⟨fun i hholds => (h.held i hholds).mono hmore,
    fun i token hmem => (h.inbox i token hmem).mono hmore,
    fun i token hmem => ⟨(h.received i token hmem).1.mono hmore, (h.received i token hmem).2⟩⟩

/-- What one call of `ring_on_token` sends and reports, and the token it
keeps. -/
structure TurnCarries (written : ι → List Token) (state after : RingState)
    (out : List Effect) : Prop where
  sent : ∀ dst token ok, .unicast dst (.token token) ok ∈ out → token.Carried written
  received : ∀ token, .received token ∈ out →
    token = state.tokenIn ∧ state.holdsOwn = true
  kept : after.haveToken = true → after.tokenIn = state.tokenIn

omit [DecidableEq ι] in
theorem ringOnToken_carries {state : RingState} (ok : Nat → Bool)
    (hheld : state.tokenIn.Carried written)
    (hcli : state.haveCliPending = true → state.cliPending.Carried written) :
    TurnCarries written state (ringOnToken state ok).1 (ringOnToken state ok).2 := by
  have hemptied : state.emptied.Carried written := Token.carried_empty rfl rfl
  have hkept : ∀ after : RingState, after.tokenIn = state.tokenIn →
      (if ok 0 then after.released else after).haveToken = true →
      (if ok 0 then after.released else after).tokenIn = state.tokenIn := by
    intro after hsame hhave
    cases hok : ok 0 with
    | true => simp [hok, RingState.released] at hhave
    | false => simpa [hok] using hsame
  have hsent : ∀ (reports : List Effect) (out : Token), out.Carried written →
      (∀ dst token ok, .unicast dst (.token token) ok ∉ reports) →
      ∀ dst token sent, .unicast dst (.token token) sent ∈
        reports ++ [.unicast state.config.next (.token out) (ok 0)] →
        token.Carried written := by
    intro reports out hout hnone dst token sent hmem
    rcases List.mem_append.mp hmem with hreport | hlast
    · exact absurd hreport (hnone dst token sent)
    · cases List.mem_singleton.mp hlast
      exact hout
  cases hholds : state.holdsOwn with
  | true =>
      cases hpending : state.haveCliPending with
      | false =>
          rw [ringOnToken_empties hholds hpending]
          refine ⟨hsent [.received state.tokenIn] _ hemptied (by simp), ?_, hkept state rfl⟩
          intro token hmem
          exact ⟨by simpa using hmem, hholds⟩
      | true =>
          rw [ringOnToken_replaces hholds hpending]
          refine ⟨hsent [.received state.tokenIn, .attached state.cliPending] _
            ((hcli hpending).version _) (by simp), ?_, hkept state.attachedState rfl⟩
          intro token hmem
          exact ⟨by simpa using hmem, hholds⟩
  | false =>
      by_cases hattach : state.tokenIn.isEmpty = true ∧ state.haveCliPending = true
      · rw [ringOnToken_attaches hattach.1 hattach.2]
        refine ⟨hsent [.attached state.cliPending] _ ((hcli hattach.2).version _) (by simp),
          ?_, hkept state.attachedState rfl⟩
        intro token hmem
        simp at hmem
      · have hno : state.haveCliPending = false ∨ state.tokenIn.isEmpty = false := by
          cases hpending : state.haveCliPending with
          | false => exact .inl rfl
          | true => exact .inr (by simpa [hpending] using hattach)
        rw [ringOnToken_passes hholds hno]
        refine ⟨hsent [] _ hheld (by simp), ?_, hkept state rfl⟩
        intro token hmem
        simp at hmem

theorem origins_start (d : Deployment ι) : Origins d (fun _ => []) (d.start, []) := by
  refine ⟨fun i hholds => ?_, by simp [Deployment.start], by simp⟩
  change ((d.start.node i).state).haveToken = true at hholds
  change Token.Carried _ ((d.start.node i).state).tokenIn
  have hstarter : (d.member i && decide (i = d.starter)) = true := by
    obtain ⟨_, _, hstate⟩ := Node.start_state (d.config i) (d.member i)
      (decide (i = d.starter)) (d.requestId i)
    exact (congrArg RingState.haveToken hstate).symm.trans hholds
  simp only [Bool.and_eq_true] at hstarter
  have hstate : (d.start.node i).state =
      maybeSendInitialToken (RingState.init (d.config i) true) true := by
    simp [Deployment.start, Node.start, hstarter.1, hstarter.2]
  rw [hstate]
  exact Token.carried_empty rfl rfl

/-- What has to be known of the acting node. -/
theorem Origins.of_step {event : Event} {out : List Effect} (h : Origins d written run)
    (hmoves : run.1.Moves i event out run'.1) (hlog : run'.2 = run.2 ++ ringEvents i out)
    (hheld : (run'.1.state i).haveToken = true → (run'.1.state i).tokenIn.Carried written)
    (hsent : ∀ dst token, .unicast dst (.token token) true ∈ out → token.Carried written)
    (hreceived : ∀ token, .received token ∈ out →
      token.Carried written ∧ token.isEmpty = false ∧
        token.receiver = (d.self i).nodeName) : Origins d written run' := by
  refine ⟨fun j hholds => ?_, fun j token hmem => ?_, fun j token hmem => ?_⟩
  · by_cases hj : j = i
    · subst hj
      exact hheld hholds
    · rw [hmoves.others j hj] at hholds ⊢
      exact h.held j hholds
  · rcases hmoves.mem_inbox hmem with hold | hnew
    · exact h.inbox j token hold
    · exact hsent _ token hnew
  · rw [hlog] at hmem
    rcases List.mem_append.mp hmem with hold | hnew
    · exact h.received j token hold
    · obtain ⟨effect, heffect, hof⟩ := List.mem_filterMap.mp hnew
      obtain ⟨rfl, rfl⟩ : j = i ∧ effect = .received token := by
        unfold RingEvent.of at hof
        split at hof <;> cases hof
        exact ⟨rfl, rfl⟩
      exact hreceived token heffect

variable [Fintype ι]

/-- A step of a node keeps the origins: the record that waits there was written,
and so was the message of a token that arrives. -/
theorem Origins.step {event : Event} (h : Origins d written run) (hone : run.1.OneToken)
    (hcurrent : (run.1.state i).config.current = d.self i)
    (hcli : (run.1.state i).haveCliPending = true →
      (run.1.state i).cliPending.Carried written)
    (hstep : World.loggedStep run (i, event) = some run') : Origins d written run' := by
  obtain ⟨out, hmoves, hlog⟩ := World.loggedStep_some hstep
  have hsilent : ringEvents i out = [] →
      (∀ dst token, .unicast dst (.token token) true ∉ out) ∧ ∀ token, .received token ∉ out := by
    intro hnone
    have hnot := List.filterMap_eq_nil_iff.mp hnone
    exact ⟨fun dst token hmem => absurd (hnot _ hmem) (by simp [RingEvent.of]),
      fun token hmem => absurd (hnot _ hmem) (by simp [RingEvent.of])⟩
  rcases hmoves.transition.message_cases i with ⟨_, hnone, htoken, version, hsame⟩ |
    ⟨arrived, now, ok, hevent, hnone, hcase⟩ |
    ⟨now, ok, hevent, hjoined, htoken, hidle, hcount, hafter, hout⟩
  · refine h.of_step hmoves hlog (fun hholds => ?_)
      (fun dst token hmem => absurd hmem ((hsilent hnone).1 dst token))
      (fun token hmem => absurd hmem ((hsilent hnone).2 token))
    rw [hsame]
    exact (h.held i (htoken.symm.trans hholds)).version version
  · have hoffers : .token arrived ∈ run.1.inbox i := by
      have hoffers := hmoves.offers
      rw [hevent] at hoffers
      exact hoffers
    refine h.of_step hmoves hlog (fun hholds => ?_)
      (fun dst token hmem => absurd hmem ((hsilent hnone).1 dst token))
      (fun token hmem => absurd hmem ((hsilent hnone).2 token))
    rcases hcase with hunjoined | ⟨_, htaken⟩
    · rw [hone.arrives _ _ hoffers] at hunjoined
      cases hunjoined
    · rw [htaken]
      exact h.inbox i arrived hoffers
  · have hturn := ringOnToken_carries ok (h.held i htoken) hcli
    rw [← hafter, ← hout] at hturn
    refine h.of_step hmoves hlog (fun hholds => ?_) (fun dst token hmem => hturn.sent _ _ _ hmem)
      (fun token hmem => ?_)
    · rw [hturn.kept hholds]
      exact h.held i htoken
    · obtain ⟨rfl, hholds⟩ := hturn.received token hmem
      have hown : (run.1.state i).tokenIn.isEmpty = false ∧
          (run.1.state i).tokenIn.receiver = (run.1.state i).config.current.nodeName := by
        simpa [RingState.holdsOwn] using hholds
      exact ⟨h.held i htoken, hown.1, by rw [hown.2, hcurrent]⟩

end Messages

section Runs

variable [Fintype ι] {order : ι → ByteOrder} {d : Deployment ι} {r r' : UserRun ι}

/-- The steps of the nodes meet a guard; the users are free. -/
def UserRun.nodesMeet (guard : World ι × List (RingEvent ι) → ι × Event → Prop)
    (r : UserRun ι) (label : UserLabel ι) : Prop :=
  ∀ i event token, label = .node i event token → guard r.run (i, event)

omit [Fintype ι] in
theorem UserRun.Fifos.waiting_carried (h : r.Fifos order) {i : ι}
    (hcli : (r.run.1.state i).haveCliPending = true) :
    (r.run.1.state i).cliPending.Carried r.written := by
  have hmem := h.waits hcli
  exact ⟨(h.texts i _ hmem).1, fun _ => ⟨i, _, hmem, rfl⟩⟩

/-- What every run with users is: a run of the nodes, with whole records in the
FIFOs and the messages of the writers in the tokens. -/
theorem UserRun.kept_of_reaches {guard : World ι × List (RingEvent ι) → ι × Event → Prop}
    (h : Lts.Reaches (UserRun.step order) (UserRun.nodesMeet guard) d.userStart r) :
    Lts.Reaches World.loggedStep guard (d.start, []) r.run ∧ r.Fifos order ∧
      Origins d r.written r.run := by
  refine h.invariant (fun r => Lts.Reaches World.loggedStep guard (d.start, []) r.run ∧
    r.Fifos order ∧ Origins d r.written r.run) ⟨.refl, fifos_start d, origins_start d⟩ ?_
  rintro r label r' ⟨hreach, hfifos, horigins⟩ hguard hstep
  have hmoves := UserRun.moves_of_step hstep
  refine ⟨?_, hfifos.step hmoves, ?_⟩
  · cases hmoves with
    | refused => exact hreach
    | wrote => exact hreach
    | quiet i event token run hlogged => exact hreach.tail (hguard i event token rfl) hlogged
    | reads i token run hlogged => exact hreach.tail (hguard i _ token rfl) hlogged
  · have hworld := reachable_of_logged hreach
    have hnode : ∀ {i : ι} {event : Event} {run : World ι × List (RingEvent ι)},
        World.loggedStep r.run (i, event) = some run → Origins d r.written run :=
      fun hlogged => horigins.step (reachable_oneToken hworld)
        (reachable_identity hworld _).1 hfifos.waiting_carried hlogged
    cases hmoves with
    | refused => exact horigins
    | wrote i argv nodeName fifoWritable slack token =>
        refine horigins.mono fun j record hmem => ?_
        by_cases hj : j = i
        · subst hj
          simp [hmem]
        · simp [Function.update_of_ne hj, hmem]
    | quiet i event token run hlogged => exact hnode hlogged
    | reads i token run hlogged => exact hnode hlogged

theorem UserRun.kept_of_reachable (h : Lts.Reachable (UserRun.step order) d.userStart r) :
    r.Fifos order ∧ Origins d r.written r.run := by
  have hfree : Lts.Reaches (UserRun.step order) (UserRun.nodesMeet Lts.free) d.userStart r :=
    h.weaken fun _ _ _ _ _ _ _ => trivial
  exact (UserRun.kept_of_reaches hfree).2

/-- The messages attached, node by node. -/
theorem count_messagesAttached (log : List (RingEvent ι)) (m : UserMessage) :
    (messagesAttached log).count m =
      ∑ i, ((attachedAt i log).flatMap Token.messages).count m := by
  induction log with
  | nil => simp [messagesAttached, attachedAt]
  | cons event rest ih =>
      cases event with
      | sent node dst token => exact ih
      | received node token => exact ih
      | attached j record =>
          have hhead : messagesAttached (.attached j record :: rest) =
              record.messages ++ messagesAttached rest := rfl
          have heach : ∀ i, ((attachedAt i (.attached j record :: rest)).flatMap
              Token.messages).count m = (if j = i then record.messages.count m else 0) +
                ((attachedAt i rest).flatMap Token.messages).count m := by
            intro i
            by_cases hj : j = i <;> simp [attachedAt, hj]
          rw [hhead, List.count_append, ih, Finset.sum_congr rfl fun i _ => heach i,
            Finset.sum_add_distrib, Finset.sum_ite_eq, if_pos (Finset.mem_univ j)]

/-- A writer at `A` is given a text for `B`; `A` attaches it, and `B` reports
it. -/
def writtenForB : List (UserLabel (Fin 2)) :=
  .writer 0 [[], [104, 105], [66]] (some [65]) true (fun _ => 7) ::
    (fullPass 0 none (some recordForB) ++ fullPass 1 (some recordForB) none).map
      (fun (i, event) => .node i event (List.replicate sizeofToken 1))

theorem exists_written_run :
    ∃ r : UserRun (Fin 2),
      Lts.Reaches (UserRun.step fun _ => .little) (UserRun.nodesMeet RetriesUnchanged)
        Deployment.duo.userStart r ∧
      r.read 0 = [recordForB] ∧ r.written 0 = [recordForB] ∧ r.written 1 = [] ∧
      messagesReceived r.run.2 = recordForB.messages := by
  have hexec : (Lts.exec (UserRun.step fun _ => .little) Deployment.duo.userStart
      writtenForB).map (fun r => (r.read 0, r.written 0, r.written 1,
        messagesReceived r.run.2)) =
      some ([recordForB], [recordForB], [], recordForB.messages) := by
    decide +kernel
  obtain ⟨r, hrun, hvalues⟩ := Option.map_eq_some_iff.mp hexec
  simp only [Prod.mk.injEq] at hvalues
  refine ⟨r, Lts.reaches_of_exec ?_ hrun, hvalues⟩
  intro label hmem run i event token heq now ok hevent hfailed
  rcases List.mem_cons.mp hmem with rfl | hnode
  · cases heq
  · obtain ⟨pair, hpair, hlabel⟩ := List.mem_map.mp hnode
    have hsends : pair.2.SendsSucceed := by
      rcases List.mem_append.mp hpair with hfirst | hsecond
      · exact fullPass_sends pair hfirst
      · exact fullPass_sends pair hsecond
    rw [heq] at hlabel
    cases hlabel
    change pair.2 = _ at hevent
    rw [hevent] at hsends
    rw [hsends 0] at hfailed
    cases hfailed

/-- In every run of the nodes and any number of writers, the FIFO of a node
holds, byte for byte, whole records of the writers in the order in which they
were written; `cli_handle_read` has taken the ones before them; and what the node
attached, with the record that waits, it has read, in this order. -/
theorem fifos_hold_whole_records (d : Deployment ι) (order : ι → ByteOrder) (r : UserRun ι)
    (h : Lts.Reachable (UserRun.step order) d.userStart r) : r.Fifos order :=
  (UserRun.kept_of_reachable h).1

theorem written_record_in_fifo :
    ∃ r : UserRun (Fin 2), r.read 0 = [recordForB] ∧ r.Fifos fun _ => .little := by
  obtain ⟨r, hreach, hread, _⟩ := exists_written_run
  exact ⟨r, hread, fifos_hold_whole_records Deployment.duo _ r
    (hreach.weaken fun _ _ _ => trivial)⟩

/-- In every run every report of `ring_on_token` is addressed to the node that
makes it and shows a message of a record that a writer wrote; and every token on
its way is read by the next node as the one that was sent. -/
theorem reports_were_written (d : Deployment ι) (order : ι → ByteOrder) (r : UserRun ι)
    (h : Lts.Reachable (UserRun.step order) d.userStart r) :
    Origins d r.written r.run ∧
      ∀ i token, .token token ∈ r.run.1.inbox i → ∀ order slack,
        Token.ofPayload order (token.payload order slack) = token := by
  have horigins := (UserRun.kept_of_reachable h).2
  exact ⟨horigins, fun i token hmem order slack =>
    (horigins.inbox i token hmem).text.round_trip order slack⟩

theorem written_record_reported :
    ∃ r : UserRun (Fin 2), messagesReceived r.run.2 = recordForB.messages ∧
      Origins Deployment.duo r.written r.run := by
  obtain ⟨r, hreach, _, _, _, hreported⟩ := exists_written_run
  exact ⟨r, hreported, (reports_were_written Deployment.duo _ r
    (hreach.weaken fun _ _ _ => trivial)).1⟩

/-- Where failed sends are those of a token that only passes through, no message
is reported more often than it was written. -/
theorem reported_at_most_as_written (d : Deployment ι) (order : ι → ByteOrder)
    (r : UserRun ι)
    (h : Lts.Reaches (UserRun.step order) (UserRun.nodesMeet RetriesUnchanged)
      d.userStart r) (m : UserMessage) :
    (messagesReceived r.run.2).count m ≤
      ∑ i, ((r.written i).flatMap Token.messages).count m := by
  obtain ⟨hreach, hfifos, _⟩ := UserRun.kept_of_reaches h
  obtain ⟨⟨i, token, _, hlog⟩, _⟩ := messagesKept_of_reaches hreach
  have hprefix : (messagesReceived r.run.2).count m ≤ (messagesAttached r.run.2).count m := by
    rw [hlog, List.count_append]
    omega
  refine hprefix.trans ?_
  rw [count_messagesAttached]
  refine Finset.sum_le_sum fun i _ => ?_
  have hsub : (attachedAt i r.run.2).Sublist (r.written i) :=
    (List.sublist_append_left _ _).trans
      ((hfifos.attached i).trans (hfifos.read_prefix i).sublist)
  exact (hsub.flatMap Token.messages).count_le m

theorem written_record_reported_once :
    ∃ r : UserRun (Fin 2), messagesReceived r.run.2 = recordForB.messages ∧
      (messagesReceived r.run.2).count ⟨[104, 105], NodeName.ofBytes [65], NodeName.ofBytes [66]⟩ ≤
        ∑ i, ((r.written i).flatMap Token.messages).count
          ⟨[104, 105], NodeName.ofBytes [65], NodeName.ofBytes [66]⟩ := by
  obtain ⟨r, hreach, _, _, _, hreported⟩ := exists_written_run
  exact ⟨r, hreported, reported_at_most_as_written Deployment.duo _ r hreach _⟩

end Runs

end TokenRing
