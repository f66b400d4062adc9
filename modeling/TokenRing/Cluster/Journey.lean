import TokenRing.Cluster.World
import TokenRing.Lib.CycleDistance

/-!
What the token does in a ring in which nobody joins, without the nodes around
it: it is in the hands of one node or on its way to one, and the node that has
it empties it, fills it or passes it on. The events of a message from the node
that attaches it to the one that empties the token follow from this alone.
-/

namespace TokenRing

open CycleDistance

/-- What `ring_on_token` does that others can see. -/
inductive RingEvent (ι : Type*) where
  | sent (node : ι) (dst : Route) (token : Token)
  | received (node : ι) (token : Token)
  | attached (node : ι) (record : Token)
deriving DecidableEq

variable {ι : Type*}

/-- Where the token is: in the hands of a node, or on its way to it. -/
structure Place (ι : Type*) where
  node : ι
  inHand : Bool
  token : Token

/-- The record as it goes into the token. -/
def Token.withVersion (record : Token) (version : UInt32) : Token :=
  { record with topoVersion := version }

/-- One turn of a node with the token: the events, and the token it sends. -/
inductive Turn (d : Deployment ι) (i : ι) (token : Token) : List (RingEvent ι) → Token → Prop where
  | passes (hother : ¬ (token.isEmpty = false ∧ token.receiver = (d.self i).nodeName)) :
      Turn d i token [.sent i (d.self (d.next i)) token] token
  | fills (record : Token) (version : UInt32) (hempty : token.isEmpty = true) :
      Turn d i token
        [.attached i record,
          .sent i (d.self (d.next i)) (record.withVersion version)]
        (record.withVersion version)
  | empties (out : Token) (hfull : token.isEmpty = false)
      (hown : token.receiver = (d.self i).nodeName) (hempty : out.isEmpty = true) :
      Turn d i token [.received i token, .sent i (d.self (d.next i)) out] out
  | refills (record : Token) (version : UInt32) (hfull : token.isEmpty = false)
      (hown : token.receiver = (d.self i).nodeName) :
      Turn d i token
        [.received i token, .attached i record,
          .sent i (d.self (d.next i)) (record.withVersion version)]
        (record.withVersion version)

/-- The token that the starter makes. -/
def firstToken : Token := { Token.zero with isEmpty := true, topoVersion := 0 }

/-- The ways of the token, with the events so far. -/
inductive Circulates (d : Deployment ι) : Place ι → List (RingEvent ι) → Prop where
  | start : Circulates d ⟨d.starter, true, firstToken⟩ []
  | arrives {i : ι} {token : Token} {log : List (RingEvent ι)}
      (h : Circulates d ⟨i, false, token⟩ log) : Circulates d ⟨i, true, token⟩ log
  | leaves {i : ι} {token out : Token} {log events : List (RingEvent ι)}
      (h : Circulates d ⟨i, true, token⟩ log) (hturn : Turn d i token events out) :
      Circulates d ⟨d.next i, false, out⟩ (log ++ events)

/-- The sends of a token by so many nodes from `a` on, to the next one each. -/
def journey (d : Deployment ι) (a : ι) (token : Token) (hops : Nat) : List (RingEvent ι) :=
  (List.range hops).map (fun k =>
    .sent ((d.next ^ k) a) (d.self ((d.next ^ (k + 1)) a)) token)

theorem journey_succ (d : Deployment ι) (a : ι) (token : Token) (hops : Nat) :
    journey d a token (hops + 1) = journey d a token hops ++
      [.sent ((d.next ^ hops) a) (d.self (d.next ((d.next ^ hops) a))) token] := by
  simp [journey, List.range_succ, pow_succ_apply]

theorem journey_one (d : Deployment ι) (a : ι) (token : Token) :
    journey d a token 1 = [.sent a (d.self (d.next a)) token] := by
  simp [journey]

/-- No message is reported before a new one is attached. -/
def Cleared : List (RingEvent ι) → Prop
  | [] => True
  | .sent _ _ _ :: rest => Cleared rest
  | .received _ _ :: _ => False
  | .attached _ _ :: _ => True

/-- How the receiver passes the token on: empty, or with its own record. -/
inductive PassedOn (d : Deployment ι) (r : ι) : List (RingEvent ι) → Prop where
  | empty (out : Token) (hempty : out.isEmpty = true) :
      PassedOn d r [.sent r (d.self (d.next r)) out]
  | own (record : Token) (version : UInt32) :
      PassedOn d r
        [.attached r record,
          .sent r (d.self (d.next r)) (record.withVersion version)]

/-- The events after `a` attached a message to the token: the token is sent on
unchanged from node to node, and after so many sends `r` reports it and passes
the token on; it is not reported again before the next message. -/
inductive Delivery (d : Deployment ι) (a r : ι) (token : Token) (hops : Nat) :
    List (RingEvent ι) → Prop where
  | underWay (k : Nat) (hpos : 0 < k) (hle : k ≤ hops) :
      Delivery d a r token hops (journey d a token k)
  | delivered (passed rest : List (RingEvent ι)) (hpassed : PassedOn d r passed)
      (hcleared : Cleared (passed ++ rest)) :
      Delivery d a r token hops
        (journey d a token hops ++ .received r token :: (passed ++ rest))

section Turns

variable {d : Deployment ι} {a i r : ι} {token out : Token} {hops : Nat}
  {log events : List (RingEvent ι)} {place : Place ι}

/-- A record was attached. -/
def Filled (log : List (RingEvent ι)) : Prop := ∃ j record, .attached j record ∈ log

theorem Cleared.append {more : List (RingEvent ι)} (h : Cleared log)
    (hmore : ¬ Filled log → Cleared more) : Cleared (log ++ more) := by
  induction log with
  | nil =>
      apply hmore
      rintro ⟨j, record, hmem⟩
      cases hmem
  | cons event rest ih =>
      cases event with
      | sent node dst token =>
          apply ih h
          intro hrest
          apply hmore
          rintro ⟨j, record, hmem⟩
          rcases List.mem_cons.mp hmem with heq | hmem
          · cases heq
          · exact hrest ⟨j, record, hmem⟩
      | received node token => exact absurd h id
      | attached node record => trivial

/-- The last message attached is in the token. -/
theorem Turn.attached {before after : List (RingEvent ι)} {record : Token}
    (h : Turn d i token events out) (hevents : events = before ++ .attached a record :: after) :
    a = i ∧ (∃ version, out = record.withVersion version) ∧
      after = [.sent i (d.self (d.next i)) out] := by
  cases h with
  | passes hother => simp [List.cons_eq_append_iff] at hevents
  | fills found version hempty =>
      simp [List.cons_eq_append_iff] at hevents
      obtain ⟨_, ⟨rfl, rfl⟩, rfl⟩ := hevents
      exact ⟨rfl, ⟨version, rfl⟩, rfl⟩
  | empties out hfull hown hempty => simp [List.cons_eq_append_iff] at hevents
  | refills found version hfull hown =>
      simp [List.cons_eq_append_iff] at hevents
      obtain ⟨_, ⟨rfl, rfl⟩, rfl⟩ := hevents
      exact ⟨rfl, ⟨version, rfl⟩, rfl⟩

/-- The events after a message was attached, with the place of the token. -/
inductive Fate (d : Deployment ι) (a r : ι) (token : Token) (hops : Nat) :
    Place ι → List (RingEvent ι) → Prop where
  | underWay (k : Nat) (inHand : Bool) (hpos : 0 < k) (hle : k ≤ hops) :
      Fate d a r token hops ⟨(d.next ^ k) a, inHand, token⟩ (journey d a token k)
  | delivered (place : Place ι) (passed rest : List (RingEvent ι))
      (hpassed : PassedOn d r passed) (hcleared : Cleared (passed ++ rest))
      (hempty : ¬ Filled (passed ++ rest) → place.token.isEmpty = true) :
      Fate d a r token hops place
        (journey d a token hops ++ .received r token :: (passed ++ rest))

theorem Fate.delivery {after : List (RingEvent ι)} (h : Fate d a r token hops place after) :
    Delivery d a r token hops after := by
  cases h with
  | underWay k inHand hpos hle => exact .underWay k hpos hle
  | delivered place passed rest hpassed hcleared hempty =>
      exact .delivered passed rest hpassed hcleared

theorem Fate.arrives {after : List (RingEvent ι)} {held : Token}
    (h : Fate d a r token hops ⟨i, false, held⟩ after) :
    Fate d a r token hops ⟨i, true, held⟩ after := by
  cases h with
  | underWay k inHand hpos hle => exact .underWay k true hpos hle
  | delivered place passed rest hpassed hcleared hempty =>
      exact .delivered ⟨i, true, held⟩ passed rest hpassed hcleared hempty

/-- A full token for another node. -/
theorem Turn.on_way (h : Turn d i token events out) (hfull : token.isEmpty = false)
    (hother : token.receiver ≠ (d.self i).nodeName) :
    events = [.sent i (d.self (d.next i)) token] ∧ out = token := by
  cases h with
  | passes _ => exact ⟨rfl, rfl⟩
  | fills record version hempty =>
      rw [hfull] at hempty
      cases hempty
  | empties out _ hown hempty => exact absurd hown hother
  | refills record version _ hown => exact absurd hown hother

/-- A full token at its receiver. -/
theorem Turn.at_receiver (h : Turn d i token events out) (hfull : token.isEmpty = false)
    (hown : token.receiver = (d.self i).nodeName) :
    ∃ passed, events = .received i token :: passed ∧ PassedOn d i passed ∧ Cleared passed ∧
      (¬ Filled passed → out.isEmpty = true) := by
  cases h with
  | passes hother => exact absurd ⟨hfull, hown⟩ hother
  | fills record version hempty =>
      rw [hfull] at hempty
      cases hempty
  | empties out _ _ hempty => exact ⟨_, rfl, .empty out hempty, trivial, fun _ => hempty⟩
  | refills record version _ _ =>
      refine ⟨_, rfl, .own record version, trivial, fun hnot => ?_⟩
      exact absurd ⟨i, record, List.mem_cons_self⟩ hnot

/-- Before the last hop the token is not at the receiver. -/
theorem receiver_ne {k : Nat} (hdist : Distance d.next a r hops)
    (hreceiver : token.receiver = (d.self r).nodeName) (hpos : 0 < k) (hlt : k < hops) :
    token.receiver ≠ (d.self ((d.next ^ k) a)).nodeName := by
  intro hown
  have hnames := hreceiver.symm.trans hown
  exact hdist.first k hpos hlt (d.names_distinct _ _ hnames).symm

/-- A turn with the message in the token. -/
theorem Fate.turnUnderWay {k : Nat} (hdist : Distance d.next a r hops)
    (hfull : token.isEmpty = false) (hreceiver : token.receiver = (d.self r).nodeName)
    (hpos : 0 < k) (hle : k ≤ hops) (hturn : Turn d ((d.next ^ k) a) token events out) :
    Fate d a r token hops ⟨d.next ((d.next ^ k) a), false, out⟩
      (journey d a token k ++ events) := by
  rcases hle.lt_or_eq with hlt | rfl
  · obtain ⟨rfl, rfl⟩ := hturn.on_way hfull (receiver_ne hdist hreceiver hpos hlt)
    rw [← journey_succ, ← pow_succ_apply]
    exact .underWay (k + 1) false (Nat.succ_pos k) hlt
  · have hat : (d.next ^ k) a = r := hdist.arrives
    rw [hat] at hturn ⊢
    obtain ⟨passed, rfl, hpassed, hcleared, hempty⟩ := hturn.at_receiver hfull hreceiver
    have hrest : passed ++ [] = passed := List.append_nil passed
    rw [← hrest] at hcleared hempty
    rw [← hrest]
    exact .delivered _ passed [] hpassed hcleared hempty

/-- A turn after the message was reported. -/
theorem Fate.turnDelivered {held : Token} {passed rest : List (RingEvent ι)}
    (hpassed : PassedOn d r passed) (hcleared : Cleared (passed ++ rest))
    (hempty : ¬ Filled (passed ++ rest) → held.isEmpty = true)
    (hturn : Turn d i held events out) :
    Fate d a r token hops ⟨d.next i, false, out⟩
      (journey d a token hops ++ .received r token :: (passed ++ rest) ++ events) := by
  have hmore : ¬ Filled (passed ++ rest) → Cleared events := by
    intro hnot
    have hheld := hempty hnot
    cases hturn with
    | passes hother => trivial
    | fills record version _ => trivial
    | empties out hfull hown _ =>
        rw [hheld] at hfull
        cases hfull
    | refills record version hfull hown =>
        rw [hheld] at hfull
        cases hfull
  have hlog : journey d a token hops ++ .received r token :: (passed ++ rest) ++ events =
      journey d a token hops ++ .received r token :: (passed ++ (rest ++ events)) := by
    simp
  have hclear : Cleared (passed ++ (rest ++ events)) := by
    rw [← List.append_assoc]
    exact hcleared.append hmore
  rw [hlog]
  refine .delivered _ passed (rest ++ events) hpassed hclear ?_
  rw [← List.append_assoc]
  intro hnot
  have hbefore : ¬ Filled (passed ++ rest) := by
    rintro ⟨j, record, hmem⟩
    exact hnot ⟨j, record, List.mem_append_left _ hmem⟩
  have hheld := hempty hbefore
  cases hturn with
  | passes hother => exact hheld
  | fills record version _ =>
      exact absurd ⟨i, record, List.mem_append_right _ List.mem_cons_self⟩ hnot
  | empties out hfull hown hout => exact hout
  | refills record version hfull hown =>
      rw [hheld] at hfull
      cases hfull

/-- A message on its way, or reported, in every circulation. -/
theorem Circulates.fate {before after : List (RingEvent ι)} {record : Token}
    (h : Circulates d place log) (hlog : log = before ++ .attached a record :: after)
    (hdist : Distance d.next a r hops) (hfull : record.isEmpty = false)
    (hreceiver : record.receiver = (d.self r).nodeName) :
    ∃ version, Fate d a r (record.withVersion version) hops place after := by
  induction h generalizing after with
  | start => simp at hlog
  | arrives h ih =>
      obtain ⟨version, hfate⟩ := ih hlog
      exact ⟨version, hfate.arrives⟩
  | @leaves i held out log events h hturn ih =>
      have hnew : ∀ mid, events = mid ++ .attached a record :: after →
          ∃ version, Fate d a r (record.withVersion version) hops ⟨d.next i, false, out⟩ after := by
        intro mid hevents
        obtain ⟨rfl, ⟨version, rfl⟩, rfl⟩ := hturn.attached hevents
        rw [← journey_one]
        exact ⟨version, .underWay 1 false Nat.one_pos hdist.pos⟩
      rcases List.append_eq_append_iff.mp hlog with ⟨mid, _, hevents⟩ | ⟨mid, hmid, hsplit⟩
      · exact hnew mid hevents
      · cases mid with
        | nil => exact hnew [] hsplit.symm
        | cons event rest =>
            obtain ⟨rfl, rfl⟩ := List.cons.inj hsplit
            obtain ⟨version, hfate⟩ := ih hmid
            refine ⟨version, ?_⟩
            cases hfate with
            | underWay k inHand hpos hle =>
                exact Fate.turnUnderWay hdist hfull hreceiver hpos hle hturn
            | delivered place passed rest hpassed hcleared hempty =>
                exact Fate.turnDelivered hpassed hcleared hempty hturn

end Turns

end TokenRing
