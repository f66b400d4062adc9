import TokenRing.Rudp.Receiver
import TokenRing.Rudp.Sender

/-!
Delivery over the link. A is at most one message ahead: the channel to B
carries copies of the message that A sends and of the one before, older ones
first.
-/

namespace TokenRing

/-- Messages with the bit come after those with another one. -/
def BitLast (seqBit : UInt8) (first second : Frame) : Prop :=
  first.frameType = .message → second.frameType = .message → first.seqBit = seqBit →
    second.seqBit = seqBit

theorem bitLast_self (seqBit : UInt8) (frame : Frame) : BitLast seqBit frame frame :=
  fun _ _ h => h

/-- What the channel to B carries when A has completed `count` sends and B has
accepted so many messages. -/
structure Carries (posted : List Bytes) (count accepted : Nat) (ab : List Frame) : Prop where
  frames : ∀ frame ∈ ab, frame.frameType = .message →
    ∃ n, (n = count ∨ n + 1 = count) ∧ frameOf posted n = some frame
  order : ab.Pairwise (BitLast (bitOf count))
  fresh : accepted = count + 1 → ∀ frame ∈ ab, frame.frameType = .message →
    frame.seqBit = bitOf count

section Carries

variable {posted posted' : List Bytes} {count accepted : Nat} {ab ab' : List Frame}
  {frame : Frame}

/-- The channel loses, repeats or delivers frames. -/
theorem Carries.degrade (h : Carries posted count accepted ab)
    (hab : Fifo.Degrades (BitLast (bitOf count)) ab ab') : Carries posted count accepted ab' :=
  ⟨fun frame hmem => h.frames frame (hab.mem frame hmem), hab.order h.order,
    fun hnew frame hmem => h.fresh hnew frame (hab.mem frame hmem)⟩

/-- A sends control frames and copies of its message. -/
theorem Carries.send (h : Carries posted count accepted ab) {more : List Frame}
    (hmore : ∀ frame ∈ more, frame.frameType = .message → frameOf posted count = some frame) :
    Carries posted count accepted (ab ++ more) := by
  have hseq : ∀ frame ∈ more, frame.frameType = .message → frame.seqBit = bitOf count :=
    fun frame hmem hmessage => (frameOf_some (hmore frame hmem hmessage)).2.1
  refine ⟨fun frame hmem hmessage => ?_, List.pairwise_append.mpr ⟨h.order, ?_, ?_⟩,
    fun hnew frame hmem hmessage => ?_⟩
  · rcases List.mem_append.mp hmem with hold | hnew
    · exact h.frames frame hold hmessage
    · exact ⟨count, .inl rfl, hmore frame hnew hmessage⟩
  · exact List.pairwise_of_forall_mem_list fun first _ second hsecond _ hmessage _ =>
      hseq second hsecond hmessage
  · exact fun first _ second hsecond _ hmessage _ => hseq second hsecond hmessage
  · rcases List.mem_append.mp hmem with hold | hsent
    · exact h.fresh hnew frame hold hmessage
    · exact hseq frame hsent hmessage

/-- The oldest message on its way to B is the last one accepted or the next. -/
theorem Carries.head (h : Carries posted count accepted (frame :: ab)) (hlow : count ≤ accepted)
    (hhigh : accepted ≤ count + 1) (hmessage : frame.frameType = .message) :
    ∃ n, frameOf posted n = some frame ∧ (n = accepted ∨ n + 1 = accepted) := by
  obtain ⟨n, hn, hframe⟩ := h.frames frame List.mem_cons_self hmessage
  refine ⟨n, hframe, ?_⟩
  by_cases hnew : accepted = count + 1
  · have hseq := h.fresh hnew frame List.mem_cons_self hmessage
    rw [(frameOf_some hframe).2.1] at hseq
    rcases hn with rfl | rfl
    · exact .inr hnew.symm
    · exact absurd hseq.symm (bitOf_succ_ne n)
  · omega

/-- B accepts the message that A sends, which was the oldest on its way. -/
theorem Carries.accept (h : Carries posted count accepted (frame :: ab))
    (hframe : frameOf posted count = some frame) : Carries posted count (count + 1) ab := by
  obtain ⟨hmessage, hseq, _⟩ := frameOf_some hframe
  obtain ⟨hhead, hrest⟩ := List.pairwise_cons.mp h.order
  exact ⟨fun other hmem => h.frames other (List.mem_cons_of_mem _ hmem), hrest,
    fun _ other hmem hother => hhead other hmem hmessage hother hseq⟩

/-- A completes its send. -/
theorem Carries.complete (h : Carries posted count (count + 1) ab) :
    Carries posted (count + 1) (count + 1) ab := by
  have hother : ∀ frame ∈ ab, frame.frameType = .message → frame.seqBit ≠ bitOf (count + 1) := by
    intro frame hmem hmessage hseq
    exact bitOf_succ_ne count (hseq.symm.trans (h.fresh rfl frame hmem hmessage))
  refine ⟨fun frame hmem hmessage => ?_, ?_, fun hnext => ?_⟩
  · obtain ⟨n, hn, hframe⟩ := h.frames frame hmem hmessage
    refine ⟨n, ?_, hframe⟩
    rcases hn with rfl | rfl
    · exact .inr rfl
    · have hseq := h.fresh rfl frame hmem hmessage
      rw [(frameOf_some hframe).2.1] at hseq
      exact absurd hseq.symm (bitOf_succ_ne n)
  · exact List.pairwise_of_forall_mem_list fun first hfirst second _ hmessage _ hseq =>
      absurd hseq (hother first hfirst hmessage)
  · omega

/-- A passes a new payload to a send, or gives one up that left no trace. -/
theorem Carries.newLine (h : Carries posted count accepted ab)
    (hframes : ∀ frame ∈ ab, frame.frameType = .message → ∀ n, (n = count ∨ n + 1 = count) →
      frameOf posted n = some frame → frameOf posted' n = some frame) :
    Carries posted' count accepted ab := by
  refine ⟨fun frame hmem hmessage => ?_, h.order, h.fresh⟩
  obtain ⟨n, hn, hframe⟩ := h.frames frame hmem hmessage
  exact ⟨n, hn, hframes frame hmem hmessage n hn hframe⟩

end Carries

/-- What holds while the messages are numbered as accepted. -/
structure Talk.Inv (link : Link) (accepted : Nat) (talk : Talk) : Prop where
  sender : Sender link talk.sent.length talk.a
  receiver : Receiver link talk.line accepted talk.returned talk.b
  low : talk.sent.length ≤ accepted
  answered : talk.a.loc.acked = true → accepted = talk.sent.length + 1
  size : ∀ payload ∈ talk.line, payload.length = link.size
  carries : Carries talk.line talk.sent.length accepted talk.ab

theorem RudpLoc.current_length (loc : RudpLoc) : loc.current.length ≤ 1 := by
  cases loc <;> simp [RudpLoc.current]

section Invariant

variable {link : Link} {accepted : Nat} {talk talk' : Talk}

theorem Talk.line_length (talk : Talk) : talk.line.length ≤ talk.sent.length + 1 := by
  have hcurrent := talk.a.loc.current_length
  simp only [Talk.line, List.length_append]
  omega

theorem Talk.Inv.high (h : talk.Inv link accepted) : accepted ≤ talk.sent.length + 1 :=
  h.receiver.holds.upper.trans talk.line_length

/-- The bit that B expects next tells whether it has accepted the message of
A's send. -/
theorem Talk.Inv.bitAhead (h : talk.Inv link accepted) :
    talk.b.bitAhead link.addrA = bitOf talk.sent.length ↔ accepted = talk.sent.length := by
  have hahead : talk.b.bitAhead link.addrA = bitOf accepted := h.receiver.holds.bitAhead
  rw [hahead]
  constructor
  · intro hsame
    have hlow := h.low
    have hhigh := h.high
    by_contra hne
    obtain rfl : accepted = talk.sent.length + 1 := by omega
    exact bitOf_succ_ne _ hsame
  · rintro rfl
    rfl

/-- B takes a step: it may accept the message that it reads from the channel,
which leaves this one shorter. -/
theorem Talk.Inv.moveB (h : talk.Inv link accepted) {action : RudpAction} {ab : List Frame}
    {result : Endpoint × List RudpOutput}
    (hab : ab = talk.ab ∨ ∃ frame ok, action = .arrive link.addrA (.frame frame) ok ∧
      talk.ab = frame :: ab)
    (hfrom : ab = talk.ab → action.isFrom link.addrA = false)
    (hprogress : Progress link talk.line accepted talk.returned action result) :
    ∃ accepted', Talk.Inv link accepted' ({ talk with ab := ab }.moveB link result) := by
  obtain ⟨accepted', hreceiver, hnext⟩ := hprogress
  have hlow := h.low
  have hlength := talk.line_length
  rcases hnext with rfl | ⟨rfl, frame, ok, haction, hframe⟩
  · refine ⟨accepted', h.sender, hreceiver, hlow, h.answered, h.size, ?_⟩
    rcases hab with rfl | ⟨head, _, _, hsplit⟩
    · exact h.carries
    · refine h.carries.degrade ⟨fun frame hmem => ?_, fun horder => ?_⟩
      · rw [hsplit]
        exact List.mem_cons_of_mem _ hmem
      · rw [hsplit] at horder
        exact horder.of_cons
  · have hlt := frameOf_lt hframe
    obtain rfl : accepted = talk.sent.length := by omega
    refine ⟨_, h.sender, hreceiver, Nat.le_succ _, fun _ => rfl, h.size, ?_⟩
    rcases hab with hsame | ⟨head, ok', haction', hsplit⟩
    · have hnone := hfrom hsame
      simp [haction, RudpAction.isFrom] at hnone
    · rw [haction] at haction'
      cases haction'
      have hcarries := h.carries
      rw [hsplit] at hcarries
      exact hcarries.accept hframe

/-- Another line that agrees on the accepted messages. -/
theorem Receiver.newLine {posted posted' : List Bytes} {returned : List Bytes} {b : Endpoint}
    (h : Receiver link posted accepted returned b)
    (hsame : posted'.take accepted = posted.take accepted) (hupper : accepted ≤ posted'.length) :
    Receiver link posted' accepted returned b := by
  obtain ⟨⟨hbit, hinHand, _, hshielded⟩, hstands⟩ := h
  rw [← hsame] at hinHand
  exact ⟨⟨hbit, hinHand, hupper, hshielded⟩, hstands⟩

theorem Talk.Inv.of_moveA {a' : Endpoint} {out : List RudpOutput} {ba : List Frame}
    {sent posted : List Bytes} (hsent : talk.sent ++ sentTo link.addrB out = sent)
    (hline : sent ++ a'.loc.current = posted) (hsender : Sender link sent.length a')
    (hreceiver : Receiver link posted accepted talk.returned talk.b)
    (hlow : sent.length ≤ accepted)
    (hanswered : a'.loc.acked = true → accepted = sent.length + 1)
    (hsize : ∀ payload ∈ posted, payload.length = link.size)
    (hcarries : Carries posted sent.length accepted (talk.ab ++ framesTo link.addrB out)) :
    Talk.Inv link accepted ({ talk with ba := ba }.moveA link (a', out)) := by
  subst hsent hline
  exact ⟨hsender, hreceiver, hlow, hanswered, hsize, hcarries⟩

/-- A begins a call: the line is longer by its payload. -/
theorem Talk.Inv.starts (h : talk.Inv link accepted) {a' : Endpoint} {payload : Bytes}
    {ba : List Frame} (hsender : Sender link talk.sent.length a')
    (hbefore : talk.a.loc.current = []) (hafter : a'.loc.current = [payload])
    (hacked : a'.loc.acked = false) (hlength : payload.length = link.size) :
    Talk.Inv link accepted ({ talk with ba := ba }.moveA link (a', [])) := by
  have hline : talk.line = talk.sent := by rw [Talk.line, hbefore, List.append_nil]
  have hreceiver := h.receiver
  have hcarries := h.carries
  have hsize := h.size
  rw [hline] at hcarries hreceiver hsize
  have hupper := hreceiver.holds.upper
  refine .of_moveA (List.append_nil _) (by rw [hafter]) hsender ?_ h.low ?_ ?_ ?_
  · refine hreceiver.newLine (List.take_append_of_le_length hupper) ?_
    rw [List.length_append]
    omega
  · rw [hacked]
    exact fun h => by cases h
  · intro other hmem
    rcases List.mem_append.mp hmem with hold | hnew
    · exact hsize other hold
    · rw [List.mem_singleton.mp hnew]
      exact hlength
  · have hextended : Carries (talk.sent ++ [payload]) talk.sent.length accepted talk.ab :=
      hcarries.newLine fun frame _ _ n _ hframe => frameOf_append hframe _
    simpa [framesTo] using hextended

/-- A gives up: the line loses the payload that has left no trace. -/
theorem Talk.Inv.gives_up (h : talk.Inv link accepted) {a' : Endpoint} {call : SendCall}
    {ba : List Frame} (hunseen : talk.unseen link (bitOf talk.sent.length) = true)
    (hloc : talk.a.loc = .sendWait call) (hsender : Sender link talk.sent.length a')
    (hafter : a'.loc = .idle) :
    Talk.Inv link accepted ({ talk with ba := ba }.moveA link (a', [.sendFailed call.dest])) := by
  simp only [Talk.unseen, Bool.and_eq_true, decide_eq_true_eq] at hunseen
  obtain ⟨hab, hahead⟩ := hunseen
  obtain rfl := h.bitAhead.mp hahead
  have hline : talk.line = talk.sent ++ [call.frame.data] := by
    rw [Talk.line, hloc]
    rfl
  have hnone : talk.sent ++ a'.loc.current = talk.sent := by
    rw [hafter]
    exact List.append_nil _
  refine .of_moveA (List.append_nil _) hnone hsender ?_ le_rfl ?_ ?_ ?_
  · refine h.receiver.newLine ?_ le_rfl
    rw [hline, List.take_length, List.take_left]
  · rw [hafter]
    exact fun h => by cases h
  · intro payload hmem
    refine h.size payload ?_
    rw [hline]
    exact List.mem_append_left _ hmem
  · have hshorter : Carries talk.sent talk.sent.length talk.sent.length talk.ab := by
      refine h.carries.newLine fun frame hmem hmessage n hn hframe => ?_
      rcases hn with rfl | hn
      · have hnot := List.all_eq_true.mp hab frame hmem
        simp [hmessage, (frameOf_some hframe).2.1] at hnot
      · rwa [hline, frameOf_of_append (by omega)] at hframe
    simpa [framesTo] using hshorter

/-- A takes a step: it hears no late acknowledgement, and gives up only what
has left no trace. -/
theorem Talk.Inv.moveA (h : talk.Inv link accepted) {action : RudpAction} {ba : List Frame}
    {result : Endpoint × List RudpOutput}
    (hhears : ∀ call frame ok, talk.a.loc = .sendWait call →
      action = .arrive link.addrB (.frame frame) ok → frame.frameType = .ack →
        frame.seqBit = call.frame.seqBit → talk.b.bitAhead link.addrA ≠ frame.seqBit)
    (hclean : talk.givesUpUnseen link (.a action) = true)
    (hsends : Sends link talk.sent.length talk.a action result) :
    Talk.Inv link accepted ({ talk with ba := ba }.moveA link result) := by
  have hlow := h.low
  have hhigh := h.high
  have hseq : ∀ call, talk.a.loc = .sendWait call →
      call.frame.seqBit = bitOf talk.sent.length := by
    intro call hloc
    have hstands := h.sender.stands
    rw [hloc] at hstands
    exact congrArg Frame.seqBit hstands.1.frame
  cases hsends with
  | stays a' out hsender hline hacked hframes hsent =>
      have hsame : talk.sent ++ a'.loc.current = talk.line := by rw [hline, Talk.line]
      refine .of_moveA (by rw [hsent, List.append_nil]) hsame hsender h.receiver hlow ?_
        h.size ?_
      · rw [hacked]
        exact h.answered
      · refine h.carries.send fun frame hmem hmessage => ?_
        obtain ⟨payload, hcurrent, rfl⟩ := hframes frame hmem hmessage
        rw [Talk.line, hcurrent]
        exact frameOf_last talk.sent payload
  | starts a' payload hsender hbefore hafter hacked hlength =>
      exact h.starts hsender hbefore hafter hacked hlength
  | hears a' call frame ok hloc haction hframe hsender hline =>
      have hsame : talk.sent ++ a'.loc.current = talk.line := by rw [hline, Talk.line]
      have hlate := hhears call frame ok hloc haction hframe.1
        (hframe.2.trans (hseq call hloc).symm)
      rw [hframe.2, ne_eq, h.bitAhead] at hlate
      refine .of_moveA (List.append_nil _) hsame hsender h.receiver hlow (fun _ => by omega)
        h.size ?_
      simpa [framesTo] using h.carries
  | completes a' out payload hsender hacked hbefore hafter hframes hsent =>
      obtain rfl := h.answered hacked
      have hline : talk.line = talk.sent ++ [payload] := by rw [Talk.line, hbefore]
      have hlength : (talk.sent ++ [payload]).length = talk.sent.length + 1 := by simp
      refine .of_moveA (by rw [hsent]) (by rw [hafter, hline]; simp [RudpLoc.current]) ?_
        h.receiver ?_ ?_ h.size ?_
      · rw [hlength]
        exact hsender
      · rw [hlength]
      · rw [hafter]
        exact fun h => by cases h
      · rw [hlength]
        exact h.carries.complete.send fun frame hmem hmessage =>
          absurd hmessage (hframes frame hmem)
  | givesUp a' call haction hloc hlimit hsender hafter =>
      subst haction
      refine h.gives_up ?_ hloc hsender hafter
      simp only [Talk.givesUpUnseen, hloc, hseq call hloc] at hclean
      obtain ⟨hpositive, hreached⟩ := hlimit
      have hcases : (call.attempts : Int) + 1 < call.maxAttempts ∨
          talk.unseen link (bitOf talk.sent.length) = true := by
        simpa [hpositive] using hclean
      refine hcases.resolve_left fun hless => ?_
      omega

/-- What the oldest frame under way brings to B. -/
theorem Talk.Inv.brings (h : talk.Inv link accepted) {frame : Frame} {rest : List Frame}
    (hab : talk.ab = frame :: rest) (ok : Bool) :
    Brings link talk.line accepted (.arrive link.addrA (.frame frame) ok) := by
  intro message ok' haction hmessage
  cases haction
  have hcarries := h.carries
  rw [hab] at hcarries
  exact hcarries.head h.low h.high hmessage

/-- Every step in which B stores in turn, and A hears no late acknowledgement
and gives up no message that left a trace. -/
theorem Talk.Inv.step {event : TalkEvent} (h : talk.Inv link accepted)
    (husual : talk.usual link event = true) (hturn : talk.storesInTurn link event = true)
    (hhears : talk.hearsInTime link event = true)
    (hclean : talk.givesUpUnseen link event = true) (hstep : talk.step link event = some talk') :
    ∃ accepted', talk'.Inv link accepted' := by
  obtain ⟨hroom, haction⟩ := Bool.and_eq_true_iff.mp husual
  cases Talk.moves_of_step hstep with
  | a action result hfrom hresult =>
      refine ⟨accepted, h.moveA ?_ hclean (h.sender.step haction hresult)⟩
      rintro call frame ok _ rfl
      simp [RudpAction.isFrom] at hfrom
  | b action result hfrom hresult =>
      have hbrings : Brings link talk.line accepted action := by
        rintro frame ok rfl
        simp [RudpAction.isFrom] at hfrom
      exact h.moveB (.inl rfl) (fun _ => hfrom)
        (h.receiver.step h.size hroom haction hturn hbrings hresult)
  | toA ok frame rest result hba hresult =>
      refine ⟨accepted, h.moveA ?_ rfl (h.sender.step rfl hresult)⟩
      intro call frame' ok' hloc haction hack hseq
      cases haction
      simpa [Talk.hearsInTime, hloc, hba, hack, hseq] using hhears
  | toB ok frame rest result hab hresult =>
      simp only [Talk.storesInTurn, hab] at hturn
      refine h.moveB (.inr ⟨frame, ok, rfl, hab⟩) (fun hsame => ?_)
        (h.receiver.step h.size hroom rfl hturn (h.brings hab ok) hresult)
      rw [hab] at hsame
      exact absurd hsame.symm (List.cons_ne_self _ _)
  | loseToB i =>
      exact ⟨accepted, { h with carries := h.carries.degrade (Fifo.degrades_lose _ i) }⟩
  | duplicateToB i =>
      exact ⟨accepted, { h with
        carries := h.carries.degrade (Fifo.degrades_duplicate (bitLast_self _) _ i) }⟩
  | loseToA i | duplicateToA i => exact ⟨accepted, { h with }⟩

end Invariant

end TokenRing
