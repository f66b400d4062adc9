import TokenRing.Cluster.World

/-!
From the arguments and the environment of a process to the first state of its
node: `main`, `ring_initialize` and the start of `ring_run`. The processes of a
system start as a deployment exactly when their environments describe one ring.
-/

namespace TokenRing

inductive EnvVar where
  | nodeName
  | nodeUniPort
  | nodeBroadPort
  | prevNodeName
  | prevNodeUniPort
  | nextNodeName
  | nextNodeUniPort
  | shouldStart
deriving DecidableEq

/-- What a process is started with, and what it learns from the system until
its loop begins: whether its sockets and its FIFO open, the number that
`/dev/urandom` gives it, the time and its process id. -/
structure Host where
  argv : List Bytes
  getenv : EnvVar → Option Bytes
  socketsOpen : Bool
  urandom : Option UInt32
  sec : UInt64
  usec : UInt64
  pid : UInt32

/-- `isspace` of the C locale. -/
def isSpace (c : UInt8) : Bool := c = 32 || (9 ≤ c && c ≤ 13)

def isDigit (c : UInt8) : Bool := 48 ≤ c && c ≤ 57

def digitsValue (digits : Bytes) : Nat :=
  digits.foldl (fun n c => 10 * n + (c.toNat - 48)) 0

/-- `strtol` to the base 10: what does not fit into a `long` is cut off at its
ends. -/
def strtol (text : Bytes) : Int :=
  let value := fun (digits : Bytes) => (digitsValue (digits.takeWhile isDigit) : Int)
  let signed :=
    match text.dropWhile isSpace with
    | 45 :: digits => -value digits
    | 43 :: digits => value digits
    | digits => value digits
  max (-2 ^ 63) (min signed (2 ^ 63 - 1))

/-- `atoi`, which is `(int) strtol`. -/
def atoi (text : Bytes) : Int := (Int32.ofInt (strtol text)).toInt

/-- `(uint16_t) atoi`. -/
def portOf (text : Bytes) : UInt16 := .ofInt (atoi text)

example : portOf [32, 43, 53, 48, 48, 49, 97] = 5001 := by decide

/-- `fill_config_from_env` on a configuration; the second value is the
`broadcast_port`. -/
def fillConfigFromEnv (config : RouteConfig) (getenv : EnvVar → Option Bytes) (joined : Bool) :
    Option (RouteConfig × UInt16) := do
  let nodeName ← getenv .nodeName
  let uniPort ← getenv .nodeUniPort
  let bPort ← getenv .nodeBroadPort
  let current : Route := ⟨.ofBytes nodeName, portOf uniPort⟩
  if !joined then
    some ({ config with current := current }, portOf bPort)
  else
    let prevNodeName ← getenv .prevNodeName
    let prevNodePort ← getenv .prevNodeUniPort
    let nextNodeName ← getenv .nextNodeName
    let nextNodePort ← getenv .nextNodeUniPort
    some (⟨current, ⟨.ofBytes prevNodeName, portOf prevNodePort⟩,
      ⟨.ofBytes nextNodeName, portOf nextNodePort⟩⟩, portOf bPort)

/-- `gen_request_id`. -/
def genRequestId (host : Host) : UInt32 :=
  let fromClock := (host.sec ^^^ host.usec ^^^ (host.pid <<< 16).toUInt64).toUInt32
  let fallback := if fromClock ≠ 0 then fromClock else 1
  match host.urandom with
  | some v => if v ≠ 0 then v else fallback
  | none => fallback

namespace Host

/-- The `joined` argument of `main`. -/
def joined (host : Host) : Bool :=
  match host.argv with
  | [_, arg] => atoi arg ≠ 0
  | _ => false

/-- `main` until the loop of `ring_run`; `none` is an exit with a failure. -/
def main (host : Host) : Option Node :=
  if host.argv.length ≠ 2 then
    none
  else
    match fillConfigFromEnv ⟨.zero, .zero, .zero⟩ host.getenv host.joined with
    | none => none
    | some (config, _) =>
        if !host.socketsOpen then
          none
        else
          some (Node.start config host.joined (host.getenv .shouldStart).isSome
            (genRequestId host))

/-- The variables without which a process does not start. -/
def required (joined : Bool) : List EnvVar :=
  [.nodeName, .nodeUniPort, .nodeBroadPort] ++
    if joined then [.prevNodeName, .prevNodeUniPort, .nextNodeName, .nextNodeUniPort] else []

/-- The route that two variables describe. -/
def route (host : Host) (name port : EnvVar) : Route :=
  ⟨.ofBytes ((host.getenv name).getD []), portOf ((host.getenv port).getD [])⟩

def self (host : Host) : Route := host.route .nodeName .nodeUniPort
def prev (host : Host) : Route := host.route .prevNodeName .prevNodeUniPort
def next (host : Host) : Route := host.route .nextNodeName .nextNodeUniPort

def config (host : Host) : RouteConfig :=
  if host.joined then ⟨host.self, host.prev, host.next⟩ else ⟨host.self, .zero, .zero⟩

/-- The process reaches its loop. -/
def Complete (host : Host) : Prop :=
  host.argv.length = 2 ∧ (∀ var ∈ required host.joined, (host.getenv var).isSome) ∧
    host.socketsOpen = true

instance (host : Host) : Decidable host.Complete :=
  inferInstanceAs (Decidable (_ ∧ _ ∧ _))

end Host

section Main

theorem genRequestId_ne_zero (host : Host) : genRequestId host ≠ 0 := by
  unfold genRequestId
  dsimp only
  split
  · split
    · assumption
    · split
      · assumption
      · decide
  · split
    · assumption
    · decide

theorem fillConfigFromEnv_eq (host : Host) :
    (fillConfigFromEnv ⟨.zero, .zero, .zero⟩ host.getenv host.joined).map Prod.fst =
      if ∀ var ∈ Host.required host.joined, (host.getenv var).isSome then some host.config
      else none := by
  unfold fillConfigFromEnv Host.config Host.self Host.prev Host.next Host.route Host.required
  cases hname : host.getenv .nodeName with
  | none => simp [hname]
  | some name =>
      cases hport : host.getenv .nodeUniPort with
      | none => simp [hname, hport]
      | some port =>
          cases hbroad : host.getenv .nodeBroadPort with
          | none => simp [hname, hport, hbroad]
          | some broad =>
              cases hjoined : host.joined with
              | false => simp [hname, hport, hbroad]
              | true =>
                  cases hprev : host.getenv .prevNodeName <;>
                    cases hprevPort : host.getenv .prevNodeUniPort <;>
                    cases hnext : host.getenv .nextNodeName <;>
                    cases hnextPort : host.getenv .nextNodeUniPort <;>
                    simp [hname, hport, hbroad, hprev, hprevPort, hnext, hnextPort]

/-- What `main` comes to. -/
theorem Host.main_eq (host : Host) :
    host.main =
      if host.Complete then
        some (Node.start host.config host.joined (host.getenv .shouldStart).isSome
          (genRequestId host))
      else none := by
  have hfill := fillConfigFromEnv_eq host
  by_cases hargs : host.argv.length = 2
  · by_cases hset : ∀ var ∈ Host.required host.joined, (host.getenv var).isSome
    · rw [if_pos hset] at hfill
      obtain ⟨⟨config, port⟩, hconfig, hsame⟩ := Option.map_eq_some_iff.mp hfill
      simp only at hsame
      subst hsame
      by_cases hopen : host.socketsOpen = true
      · have hcomplete : host.Complete := ⟨hargs, hset, hopen⟩
        rw [if_pos hcomplete]
        simp [Host.main, hargs, hconfig, hopen]
      · rw [if_neg (fun h : host.Complete => hopen h.2.2)]
        simp [Host.main, hargs, hconfig, hopen]
    · rw [if_neg hset] at hfill
      rw [if_neg (fun h : host.Complete => hset h.2.1)]
      simp [Host.main, hargs, Option.map_eq_none_iff.mp hfill]
  · rw [if_neg (fun h : host.Complete => hargs h.1)]
    simp [Host.main, hargs]

end Main

section Wiring

variable {ι : Type*}

/-- The environments describe one ring: every process starts, the members call
each other by the names and ports they have themselves, in a circle, no two
processes have names that agree in what is kept of them, and one member is told
to start. -/
structure Wired (hosts : ι → Host) (next : Equiv.Perm ι) (starter : ι) : Prop where
  complete : ∀ i, (hosts i).Complete
  ring : next.IsCycleOn {i | (hosts i).joined = true}
  next_named : ∀ i, (hosts i).joined = true → (hosts i).next = (hosts (next i)).self
  prev_named : ∀ i, (hosts i).joined = true → (hosts (next i)).prev = (hosts i).self
  names_distinct : ∀ i j, (hosts i).self.nodeName = (hosts j).self.nodeName → i = j
  ids_distinct : ∀ i j, (hosts i).joined = false → (hosts j).joined = false →
    genRequestId (hosts i) = genRequestId (hosts j) → i = j
  starter_joined : (hosts starter).joined = true
  one_starts : ∀ i, (hosts i).joined = true →
    (((hosts i).getenv .shouldStart).isSome = true ↔ i = starter)

/-- The state of the world in which the processes have just started. -/
structure World.Boots (w : World ι) (hosts : ι → Host) : Prop where
  node : ∀ i, (hosts i).main = some (w.node i)
  inbox : ∀ i, w.inbox i = []
  announced : w.announced = []

/-- What the first state of a node shows of its start. -/
theorem Node.start_inj {config config' : RouteConfig} {joined joined' start start' : Bool}
    {id id' : UInt32}
    (h : Node.start config joined start id = Node.start config' joined' start' id') :
    config = config' ∧ joined = joined' ∧ (joined = true → start = start') ∧
      (joined = false → id = id') := by
  obtain ⟨tokenIn, -, hstate⟩ := Node.start_state config joined start id
  obtain ⟨tokenIn', -, hstate'⟩ := Node.start_state config' joined' start' id'
  rw [h, hstate'] at hstate
  have hconfig : config' = config := congrArg RingState.config hstate
  have hjoined : joined' = joined := congrArg RingState.joined hstate
  have htoken : (joined' && start') = (joined && start) := congrArg RingState.haveToken hstate
  have hid : (if joined' then 0 else id') = (if joined then 0 else id) :=
    congrArg RingState.joinRequestId hstate
  subst hjoined
  refine ⟨hconfig.symm, rfl, ?_, ?_⟩
  · rintro rfl
    simpa using htoken.symm
  · rintro rfl
    simpa using hid.symm

/-- A node that has not joined does not look at `SHOULD_START`, and one that
has joined does not look at its request id. -/
theorem Node.start_congr (config : RouteConfig) {joined start start' : Bool} {id id' : UInt32}
    (hstart : joined = true → start = start') (hid : joined = false → id = id') :
    Node.start config joined start id = Node.start config joined start' id' := by
  cases joined with
  | false =>
      rw [hid rfl]
      rfl
  | true =>
      rw [hstart rfl]
      rfl

theorem Host.main_some_iff {host : Host} {config : RouteConfig} {joined start : Bool}
    {id : UInt32} :
    host.main = some (Node.start config joined start id) ↔
      host.Complete ∧ host.config = config ∧ host.joined = joined ∧
        (joined = true → (host.getenv .shouldStart).isSome = start) ∧
        (joined = false → genRequestId host = id) := by
  rw [Host.main_eq]
  constructor
  · intro h
    split at h
    · rename_i hcomplete
      obtain ⟨hconfig, hjoined, hstart, hid⟩ := Node.start_inj (Option.some.inj h)
      exact ⟨hcomplete, hconfig, hjoined, hjoined ▸ hstart, hjoined ▸ hid⟩
    · cases h
  · rintro ⟨hcomplete, rfl, rfl, hstart, hid⟩
    rw [if_pos hcomplete, Node.start_congr _ hstart hid]

/-- The deployment that environments describe. -/
def Wired.deployment {hosts : ι → Host} {next : Equiv.Perm ι} {starter : ι}
    (h : Wired hosts next starter) : Deployment ι where
  self i := (hosts i).self
  member i := (hosts i).joined
  next := next
  starter := starter
  requestId i := genRequestId (hosts i)
  names_distinct := h.names_distinct
  ids_distinct := h.ids_distinct
  ring := h.ring
  starter_member := h.starter_joined

theorem Wired.config_eq {hosts : ι → Host} {next : Equiv.Perm ι} {starter : ι}
    (h : Wired hosts next starter) (i : ι) : (hosts i).config = h.deployment.config i := by
  unfold Host.config Deployment.config
  cases hjoined : (hosts i).joined with
  | false => simp [Wired.deployment, hjoined]
  | true =>
      have hback : (hosts (next.symm i)).joined = true := by
        have hmem := h.ring.apply_mem_iff (x := next.symm i)
        rw [Equiv.apply_symm_apply] at hmem
        exact hmem.mp hjoined
      have hprev := h.prev_named _ hback
      rw [Equiv.apply_symm_apply] at hprev
      simp [Wired.deployment, hjoined, hprev, h.next_named i hjoined]

/-- The processes of a system start as the nodes of a deployment, which every
result about the system starts from, exactly when their arguments and
environments describe one ring. -/
theorem boots_iff_wired [DecidableEq ι] (hosts : ι → Host) (next : Equiv.Perm ι)
    (starter : ι) :
    (∃ d : Deployment ι, d.next = next ∧ d.starter = starter ∧ d.start.Boots hosts) ↔
      Wired hosts next starter := by
  constructor
  · rintro ⟨d, rfl, rfl, hboots⟩
    have hmain := fun i => Host.main_some_iff.mp (hboots.node i)
    have hjoined : ∀ i, (hosts i).joined = d.member i := fun i => (hmain i).2.2.1
    have hconfig : ∀ i, (hosts i).config = d.config i := fun i => (hmain i).2.1
    have hself : ∀ i, (hosts i).self = d.self i := by
      intro i
      have hcurrent := congrArg RouteConfig.current (hconfig i)
      unfold Host.config Deployment.config at hcurrent
      cases hmember : d.member i <;> simpa [hjoined, hmember] using hcurrent
    have hroutes : ∀ i, d.member i = true →
        (hosts i).prev = d.self (d.next.symm i) ∧ (hosts i).next = d.self (d.next i) := by
      intro i hmember
      have hboth := hconfig i
      unfold Host.config Deployment.config at hboth
      simp only [hjoined, hmember, if_true, RouteConfig.mk.injEq] at hboth
      exact hboth.2
    refine ⟨fun i => (hmain i).1, ?_, ?_, ?_, ?_, ?_, ?_, ?_⟩
    · simpa only [hjoined] using d.ring
    · intro i hi
      rw [hself]
      exact (hroutes i (hjoined i ▸ hi)).2
    · intro i hi
      rw [hjoined] at hi
      have hmember : d.member (d.next i) = true := d.ring.apply_mem_iff.mpr hi
      rw [(hroutes _ hmember).1, Equiv.symm_apply_apply, hself]
    · intro i j hname
      rw [hself, hself] at hname
      exact d.names_distinct i j hname
    · intro i j hi hj hid
      rw [hjoined] at hi hj
      rw [(hmain i).2.2.2.2 hi, (hmain j).2.2.2.2 hj] at hid
      exact d.ids_distinct i j hi hj hid
    · rw [hjoined]
      exact d.starter_member
    · intro i hi
      rw [(hmain i).2.2.2.1 (hjoined i ▸ hi), decide_eq_true_eq]
  · intro h
    refine ⟨h.deployment, rfl, rfl, fun i => ?_, fun _ => rfl, rfl⟩
    refine Host.main_some_iff.mpr ⟨h.complete i, h.config_eq i, rfl, ?_, fun _ => rfl⟩
    intro hmember
    have hstarts := h.one_starts i hmember
    exact Bool.eq_iff_iff.mpr (hstarts.trans decide_eq_true_iff.symm)

end Wiring

end TokenRing
