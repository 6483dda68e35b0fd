import RelayPubsub.Grpc.Stream
import RelayPubsub.Grpc.Tenant
import RelayPubsub.Memory.Isolate
import RelayPubsub.Rest.Dispatch

/-!
# Isolation of tenants

A run of the API is a list of requests – REST, unary gRPC, and the calls of
streams –, each of a caller the gateway has authorized or refused, on one
in-memory backend. Two runs that differ in what is published to the topics of a
project are laid side by side, and what a caller pulls is compared.

A request is authorized for one name, and what it stores may name others: a
subscription the topic it reads and the topic for its dead letters. Messages go
along these names later, when nobody asks who is allowed what. So a project is
isolated from a caller in the runs in which these names lead from no topic of the
project to a subscription the caller is allowed on
(`RelayPubsub.isolated_of_keepsApart`), and not in all runs
(`RelayPubsub.not_isolated`).

| what leads out of a project | stored by |
|---|---|
| the topic of a subscription | `create_subscription` |
| its topic for dead letters | `create_subscription`, `update_subscription` |
| its position, in a snapshot | `create_snapshot`, then `seek` |
-/

namespace RelayPubsub

open Lib Memory

/-! ### Runs of the API -/

/-- What the gateways use of other libraries. -/
structure Decoders where
  codecs : Rest.Codecs
  fromTimestamp : Int64 → UInt32 → Option Time

/-- **A request of the API**, at the time it is decoded. -/
inductive ApiRequest where
  | rest (now : Time) (request : Rest.Request)
  | grpc (now : Time) (request : Grpc.Request)
  /-- The task of a stream, after these events, makes its `n`-th call. -/
  | stream (events : List Grpc.Event) (n : ℕ)

/-- **A step of the system**: the caller, as the authenticator identifies it if there
is one, the request, and what the backend reads from outside. -/
structure ApiStep where
  caller : Option (Except Text AuthContext)
  request : ApiRequest
  env : Env

namespace Decoders

variable (d : Decoders)

/-- **The call a request leads to**, if it is authorized and decodes. -/
def call (a : ApiStep) : Option BackendCall :=
  match a.request with
  | .rest now request =>
    (Rest.googleDispatch d.codecs now a.caller request).toOption.map (·.call)
  | .grpc now request => (Grpc.unary d.fromTimestamp now a.caller request).toOption
  | .stream events n =>
    match a.caller with
    | none => (Machine.run (Grpc.Task.step none) {} events).calls[n]?
    | some (.error _) => none
    | some (.ok ctx) => (Machine.run (Grpc.Task.step (some ctx)) {} events).calls[n]?

/-- **The store after a step.** -/
def step (st : State) (a : ApiStep) : State :=
  match d.call a with
  | none => st
  | some call => exec d.codecs.serde st ⟨call, a.env⟩

/-- The store after a run, from the empty one. -/
def after (steps : List ApiStep) : State := Machine.run d.step {} steps

/-- The calls of a run. -/
def calls (steps : List ApiStep) : List BackendCall := steps.filterMap d.call

/-! ### Two runs -/

/-- The step does nothing but publish to a topic of the project, if anything. -/
def PublishesIn (project : Text) (a : ApiStep) : Prop :=
  ∀ call, d.call a = some call →
    ∃ topic messages, call = .publish topic messages ∧ projectOf topic = some project

/-- **The two steps differ in the messages of a project only**: they are the same
step, or neither does anything but publish there. -/
def DiffersIn (project : Text) (p : ApiStep × ApiStep) : Prop :=
  (p.1.caller = p.2.caller ∧ d.call p.1 = d.call p.2 ∧ p.1.env = p.2.env) ∨
    (d.PublishesIn project p.1 ∧ d.PublishesIn project p.2)

/-- **The project is isolated from the caller** in the two runs: each pull of the
caller answers the same in both, and changes no topic of the project. -/
def Isolated (ctx : AuthContext) (project : Text) (pairs : List (ApiStep × ApiStep)) : Prop :=
  ∀ pre p, pre ++ [p] <+: pairs → p.1.caller = some (.ok ctx) →
    ∀ name maxMessages, d.call p.1 = some (.pull name maxMessages) →
      (pull p.2.env (d.after (pre.map Prod.snd)) name maxMessages).1 =
          (pull p.1.env (d.after (pre.map Prod.fst)) name maxMessages).1 ∧
        ∀ topic, projectOf topic = some project →
          (d.after ((pre ++ [p]).map Prod.fst)).topics[topic]? =
              (d.after (pre.map Prod.fst)).topics[topic]? ∧
            (d.after ((pre ++ [p]).map Prod.snd)).topics[topic]? =
              (d.after (pre.map Prod.snd)).topics[topic]?

end Decoders

/-! ### Where the messages of a project go -/

/-- What holds messages, or a position among them. -/
inductive Resource where
  | topic (name : Text)
  | subscription (name : Text)
  | snapshot (name : Text)

/-- **What the messages of a project reach** along the names in these calls. -/
inductive Fed (project : Text) (calls : List BackendCall) : Resource → Prop
  /-- A topic of the project. -/
  | own {topic : Text} : projectOf topic = some project → Fed project calls (.topic topic)
  /-- A subscription on a topic reached. -/
  | reads {spec : SubscriptionSpec} : .createSubscription spec ∈ calls →
      Fed project calls (.topic spec.topic) → Fed project calls (.subscription spec.name)
  /-- The topic for the dead letters of a subscription reached. -/
  | writes {spec : SubscriptionSpec} {d : DeadLetterSpec} : .createSubscription spec ∈ calls →
      Fed project calls (.subscription spec.name) → spec.deadLetter = some d →
      Fed project calls (.topic d.topic)
  /-- The same, of a subscription that is updated. -/
  | rewrites {spec : SubscriptionSpec} {mask : List Text} {d : DeadLetterSpec} :
      .updateSubscription spec mask ∈ calls → SetsDeadLetter mask →
      Fed project calls (.subscription spec.name) → spec.deadLetter = some d →
      Fed project calls (.topic d.topic)
  /-- A snapshot of a subscription reached. -/
  | snapshot {name subscription : Text} {labels : StrMap Text} :
      .createSnapshot name subscription labels ∈ calls →
      Fed project calls (.subscription subscription) → Fed project calls (.snapshot name)
  /-- A subscription that is set to a snapshot reached. -/
  | seeks {subscription snapshot : Text} : .seekToSnapshot subscription snapshot ∈ calls →
      Fed project calls (.snapshot snapshot) → Fed project calls (.subscription subscription)

/-- **What keeps a project apart from a caller** at a step of the run `past`, if the
step is a pull of the caller: the caller is allowed on the subscription, also if
it asks by REST or in a stream; no subscription it is allowed on has been reached
by messages of the project; and the dead letters of the subscription do not go
there. -/
def Decoders.KeepsApart (d : Decoders) (ctx : AuthContext) (project : Text) (past : List ApiStep)
    (a : ApiStep) : Prop :=
  a.caller = some (.ok ctx) → ∀ name maxMessages, d.call a = some (.pull name maxMessages) →
    ((∀ now request, a.request ≠ .grpc now request) → Allowed ctx name) ∧
      (Allowed ctx name → ¬Fed project (d.calls past) (.subscription name)) ∧
      ∀ sub dead, (d.after past).subscriptions[name]? = some sub →
        sub.spec.deadLetter = some dead → projectOf dead.topic ≠ some project

/-- What the messages of a project reach, as a part of the store. -/
def fedPart (project : Text) (calls : List BackendCall) : Hidden where
  topics := { name | Fed project calls (.topic name) }
  subscriptions := { name | Fed project calls (.subscription name) }
  snapshots := { name | Fed project calls (.snapshot name) }

/-- **No call of the run leads out of what the messages reach.** -/
theorem traps_fedPart {project : Text} {calls : List BackendCall} {call : BackendCall}
    (h : call ∈ calls) : (fedPart project calls).Traps call := by
  cases call with
  | createSubscription spec => exact ⟨fun ht => .reads h ht, fun hs d hd => .writes h hs hd⟩
  | updateSubscription spec mask => exact fun hs hmask d hd => .rewrites h hmask hs hd
  | createSnapshot name subscription labels => exact fun hs => .snapshot h hs
  | seekToSnapshot subscription snapshot => exact fun hs => .seeks h hs
  | _ => exact trivial

section Runs

variable {d : Decoders} {ctx : AuthContext} {project : Text} {pairs : List (ApiStep × ApiStep)}

/-- Two states that agree off a part of the store no reference leads out of. -/
structure Separated (h : Hidden) (st st' : State) : Prop where
  agree : h.Agree st st'
  left : h.Sealed st
  right : h.Sealed st'

/-- A step that publishes to hidden topics only. -/
theorem step_of_publishesIn {h : Hidden} {st : State} {a : ApiStep} (hst : h.Sealed st)
    (hown : ∀ topic, projectOf topic = some project → topic ∈ h.topics)
    (ha : d.PublishesIn project a) : h.Agree st (d.step st a) ∧ h.Sealed (d.step st a) := by
  unfold Decoders.step
  rcases hcall : d.call a with - | call
  · exact ⟨.refl h st, hst⟩
  · obtain ⟨topic, messages, rfl, htopic⟩ := ha call hcall
    exact ⟨agree_of_hides hst (hown topic htopic), hst.step trivial⟩

/-- **A pair of steps.** -/
theorem Separated.step {h : Hidden} {st st' : State} {p : ApiStep × ApiStep}
    (hs : Separated h st st')
    (hown : ∀ topic, projectOf topic = some project → topic ∈ h.topics)
    (hdiffers : d.DiffersIn project p) (htraps : ∀ call, d.call p.1 = some call → h.Traps call) :
    Separated h (d.step st p.1) (d.step st' p.2) := by
  rcases hdiffers with ⟨-, hcall, henv⟩ | ⟨hleft, hright⟩
  · unfold Decoders.step
    rw [← hcall, ← henv]
    rcases hc : d.call p.1 with - | call
    · exact hs
    · have htrap := htraps call hc
      exact ⟨exec_agree hs.agree hs.left hs.right htrap, hs.left.step htrap, hs.right.step htrap⟩
  · obtain ⟨hagree, hsealed⟩ := step_of_publishesIn hs.left hown hleft
    obtain ⟨hagree', hsealed'⟩ := step_of_publishesIn hs.right hown hright
    exact ⟨(hagree.symm.trans hs.agree).trans hagree', hsealed, hsealed'⟩

/-- **Two runs that differ in the messages of a project** differ in what these reach
only. -/
theorem separated_after (hdiffers : ∀ p ∈ pairs, d.DiffersIn project p) :
    Separated (fedPart project (d.calls (pairs.map Prod.fst))) (d.after (pairs.map Prod.fst))
      (d.after (pairs.map Prod.snd)) := by
  refine Machine.run_related ⟨.refl _ _, ?_, ?_⟩ fun p hp st st' hs =>
    hs.step (fun topic htopic => .own htopic) (hdiffers p hp) fun call hcall => traps_fedPart ?_
  · intro name sub hsub
    simp at hsub
  · intro name sub hsub
    simp at hsub
  · exact List.mem_filterMap.mpr ⟨p.1, List.mem_map_of_mem hp, hcall⟩

/-- A pull by unary gRPC is on a subscription the caller is allowed on. -/
theorem allowed_of_unary_pull {fromTimestamp : Int64 → UInt32 → Option Time} {now : Time}
    {request : Grpc.Request} {name : Text} {maxMessages : UInt32}
    (h : Grpc.unary fromTimestamp now (some (.ok ctx)) request = .ok (.pull name maxMessages)) :
    Allowed ctx name := by
  obtain ⟨p, hp, hallowed, hcall⟩ := Grpc.unary_ok_iff.mp h
  have hfollows : Grpc.Follows p.resource (.pull name maxMessages) := by
    refine Grpc.follows_of_plan ?_ ?_ hp hcall
    · rintro parent schema schemaId rfl
      cases hp
      obtain ⟨s, spec, -, hcreate, -⟩ := Grpc.call_of_createSchema hcall
      cases hcreate
    · rintro topic pageSize pageToken rfl
      cases hp
      cases hcall
  rwa [hfollows.target name rfl]

/-- **A caller is allowed on what it pulls from**, if it is when it does not ask by
unary gRPC. -/
theorem allowed_of_pull {a : ApiStep} {name : Text} {maxMessages : UInt32}
    (hinside : (∀ now request, a.request ≠ .grpc now request) → Allowed ctx name)
    (hcaller : a.caller = some (.ok ctx)) (hcall : d.call a = some (.pull name maxMessages)) :
    Allowed ctx name := by
  rcases a with ⟨caller, request, env⟩
  subst hcaller
  cases request with
  | rest now request => exact hinside fun _ _ => nofun
  | stream events n => exact hinside fun _ _ => nofun
  | grpc now request =>
    have hsome : (Grpc.unary d.fromTimestamp now (some (.ok ctx)) request).toOption =
        some (.pull name maxMessages) := hcall
    rcases hok : Grpc.unary d.fromTimestamp now (some (.ok ctx)) request with e | call
    · rw [hok] at hsome
      cases hsome
    · rw [hok] at hsome
      obtain rfl := Option.some.inj hsome
      exact allowed_of_unary_pull hok

/-- A pull changes no topic but the one of the dead letters. -/
theorem step_topics_of_pull {st : State} {a : ApiStep} {name topic : Text} {maxMessages : UInt32}
    (hcall : d.call a = some (.pull name maxMessages))
    (hdead : ∀ sub dead, st.subscriptions[name]? = some sub → sub.spec.deadLetter = some dead →
      dead.topic ≠ topic) : (d.step st a).topics[topic]? = st.topics[topic]? := by
  unfold Decoders.step
  rw [hcall]
  exact pull_topics_of_ne hdead

end Runs

/-! ### Names of one project -/

/-- The name of what is reached. -/
def Resource.name : Resource → Text
  | .topic name | .subscription name | .snapshot name => name

/-- **The names a call stores with a resource are of the project of the resource.** -/
def BackendCall.InProject : BackendCall → Prop
  | .createSubscription spec =>
    projectOf spec.topic = projectOf spec.name ∧
      ∀ d, spec.deadLetter = some d → projectOf d.topic = projectOf spec.name
  | .updateSubscription spec _ =>
    ∀ d, spec.deadLetter = some d → projectOf d.topic = projectOf spec.name
  | .createSnapshot name subscription _ => projectOf subscription = projectOf name
  | .seekToSnapshot subscription snapshot => projectOf snapshot = projectOf subscription
  | _ => True

/-- Messages stay in their project along such names. -/
theorem project_of_fed {project : Text} {calls : List BackendCall} {r : Resource}
    (hlocal : ∀ c ∈ calls, c.InProject) (h : Fed project calls r) :
    projectOf r.name = some project := by
  induction h with
  | own htopic => exact htopic
  | reads hmem _ ih => exact (hlocal _ hmem).1.symm.trans ih
  | writes hmem _ hd ih => exact ((hlocal _ hmem).2 _ hd).trans ih
  | rewrites hmem _ _ hd ih => exact (hlocal _ hmem _ hd).trans ih
  | snapshot hmem _ ih => exact Eq.trans (hlocal _ hmem).symm ih
  | seeks hmem _ ih => exact Eq.trans (hlocal _ hmem).symm ih

/-- What is not of the project, as a part of the store. -/
def otherPart (project : Text) : Hidden where
  topics := { name | projectOf name ≠ some project }
  subscriptions := { name | projectOf name ≠ some project }
  snapshots := { name | projectOf name ≠ some project }

theorem traps_otherPart (project : Text) {call : BackendCall} (h : call.InProject) :
    (otherPart project).Traps call := by
  cases call with
  | createSubscription spec =>
    exact ⟨fun ht => Eq.trans_ne h.1.symm ht, fun hs d hd => Eq.trans_ne (h.2 d hd) hs⟩
  | updateSubscription spec mask => exact fun hs _ d hd => Eq.trans_ne (h d hd) hs
  | createSnapshot name subscription labels => exact fun hs => Eq.trans_ne (Eq.symm h) hs
  | seekToSnapshot subscription snapshot => exact fun hs => Eq.trans_ne (Eq.symm h) hs
  | _ => exact trivial

/-- **A project is kept apart from a caller that is not allowed in it**, if the names
stored with a resource are of its project. -/
theorem keepsApart_of_inProject {d : Decoders} {ctx : AuthContext} {project : Text}
    (hprojects : ctx.allowedProjects ≠ []) (hstar : "*".toList ∉ ctx.allowedProjects)
    (hother : project ∉ ctx.allowedProjects) {past : List ApiStep} {a : ApiStep}
    (hlocal : ∀ c ∈ d.calls past, c.InProject)
    (hinside : (∀ now request, a.request ≠ .grpc now request) → ∀ name maxMessages,
      d.call a = some (.pull name maxMessages) → Allowed ctx name) :
    d.KeepsApart ctx project past a := by
  intro hcaller name maxMessages hcall
  have hout : ∀ {name}, Allowed ctx name → projectOf name ≠ some project := by
    intro name hallowed hproject
    obtain ⟨project', hmem, heq⟩ := (authorizeResource_ok_iff hprojects hstar).mp hallowed
    obtain rfl := Option.some.inj (hproject.symm.trans heq)
    exact hother hmem
  refine ⟨fun h => hinside h name maxMessages hcall, fun hallowed hfed => ?_, ?_⟩
  · exact hout hallowed (project_of_fed hlocal hfed)
  · have hsealed : Machine.Always d.step (otherPart project).Sealed {} past := by
      refine Machine.always_of_step (fun name sub hsub => by simp at hsub) fun st a ha hst => ?_
      unfold Decoders.step
      rcases hc : d.call a with - | call
      · exact hst
      · exact hst.step (traps_otherPart project (hlocal call (List.mem_filterMap.mpr ⟨a, ha, hc⟩)))
    have hallowed := allowed_of_pull (fun h => hinside h name maxMessages hcall) hcaller hcall
    exact fun sub dead hsub hdead =>
      (hsealed.last name sub hsub).writes (hout hallowed) dead hdead

/-! ### Isolation -/

/-- **A project is isolated from a caller** in any two runs that differ in the
messages of the project only, if each pull of the caller finds it kept apart. -/
theorem isolated_of_keepsApart {d : Decoders} {ctx : AuthContext} {project : Text}
    {pairs : List (ApiStep × ApiStep)} (hdiffers : ∀ p ∈ pairs, d.DiffersIn project p)
    (hapart : ∀ pre p, pre ++ [p] <+: pairs →
      d.KeepsApart ctx project (pre.map Prod.fst) p.1) :
    d.Isolated ctx project pairs := by
  intro pre p hpre hcaller name maxMessages hcall
  obtain ⟨hinside, hunfed, hdead⟩ := hapart pre p hpre hcaller name maxMessages hcall
  have hallowed := allowed_of_pull hinside hcaller hcall
  have hsep : Separated (fedPart project (d.calls (pre.map Prod.fst))) _ _ :=
    separated_after fun q hq => hdiffers q (hpre.subset (List.mem_append_left _ hq))
  have hname : name ∉ (fedPart project (d.calls (pre.map Prod.fst))).subscriptions :=
    hunfed hallowed
  rcases hdiffers p (hpre.subset (by simp)) with ⟨-, hsame, henv⟩ | ⟨hleft, -⟩
  swap
  · obtain ⟨topic, messages, heq, -⟩ := hleft _ hcall
    cases heq
  refine ⟨?_, fun topic htopic => ⟨?_, ?_⟩⟩
  · rw [← henv]
    exact (pull_agree p.1.env hsep.agree hsep.left hname maxMessages).1
  · rw [List.map_append, List.map_singleton, Decoders.after, Machine.run_concat]
    refine step_topics_of_pull hcall fun sub dead hsub hd heq => ?_
    exact hdead sub dead hsub hd (heq ▸ htopic)
  · rw [List.map_append, List.map_singleton, Decoders.after, Machine.run_concat]
    refine step_topics_of_pull (hsame ▸ hcall) fun sub dead hsub hd heq => ?_
    -- the subscription is the same in both runs
    rw [← Decoders.after, hsep.agree.subscriptions name hname] at hsub
    exact hdead sub dead hsub hd (heq ▸ htopic)

/-- Decoders that decode nothing. -/
def sampleDecoders : Decoders where
  codecs := { serde := noJson, base64Decode := fun _ => none, parseFromRfc3339 := fun _ => none }
  fromTimestamp _ _ := none

/-- A caller allowed in project `a` only, and one allowed in project `b` only. -/
def callerOfA : AuthContext := ⟨"a", [projectName "a"]⟩

def callerOfB : AuthContext := ⟨"b", [projectName "b"]⟩

/-- A unary gRPC request, as the `k`-th step, a quarter of an hour after the one
before. -/
def unaryStep (ctx : AuthContext) (request : Grpc.Request) (k : ℕ) : ApiStep where
  caller := some (.ok ctx)
  request := .grpc 0 request
  env := (Step.numbered (900 * 10 ^ 9 * k, .listPushSubscriptions) k).env

/-- The call of a request that is authorized. -/
theorem call_unaryStep {ctx : AuthContext} {request : Grpc.Request} {k : ℕ} {p : Grpc.Plan}
    {call : BackendCall} (hp : Grpc.plan (fun _ _ => none) 0 request = .ok p)
    (hallowed : Allowed ctx p.resource) (hcall : p.call = .ok call) :
    sampleDecoders.call (unaryStep ctx request k) = some call := by
  have hok : Grpc.unary sampleDecoders.fromTimestamp 0 (some (.ok ctx)) request = .ok call :=
    Grpc.unary_ok_iff.mpr ⟨p, hp, hallowed, hcall⟩
  unfold unaryStep Decoders.call
  dsimp only
  rw [hok]
  rfl

/-- A message without attributes. -/
def plainMessage (data : Bytes) : Grpc.PubsubMessage where
  data := data
  attributes := ∅
  messageId := []
  publishTime := none
  orderingKey := []

/-- A topic in each project, a subscription of `a` on a topic, a message to each
topic, and a pull. -/
def subscribedRun (topic : Text) (data : Bytes) : List ApiStep :=
  [unaryStep callerOfA (.createTopic { name := "projects/a/topics/t" }) 0,
    unaryStep callerOfB (.createTopic { name := "projects/b/topics/t" }) 1,
    unaryStep callerOfA (.createSubscription { name := "projects/a/subscriptions/s", topic }) 2,
    unaryStep callerOfA (.publish "projects/a/topics/t" [plainMessage []]) 3,
    unaryStep callerOfB (.publish "projects/b/topics/t" [plainMessage data]) 4,
    unaryStep callerOfA (.pull "projects/a/subscriptions/s" 1) 5]

/-- The run twice, with two messages in `b`. -/
def subscribedPairs (topic : Text) : List (ApiStep × ApiStep) :=
  (subscribedRun topic [1]).zip (subscribedRun topic [2])

theorem subscribedPairs_differ (topic : Text) :
    ∀ p ∈ subscribedPairs topic, sampleDecoders.DiffersIn (projectName "b") p := by
  have hpublish : ∀ data, sampleDecoders.PublishesIn (projectName "b")
      (unaryStep callerOfB (.publish "projects/b/topics/t" [plainMessage data]) 4) := by
    intro data call hcall
    have hallowed : Allowed callerOfB "projects/b/topics/t" := by decide +kernel
    rw [call_unaryStep rfl hallowed rfl] at hcall
    exact ⟨_, _, (Option.some.inj hcall).symm, by decide +kernel⟩
  intro p hp
  simp only [subscribedPairs, subscribedRun, List.zip_cons_cons, List.zip_nil_right, List.mem_cons,
    List.not_mem_nil, or_false] at hp
  rcases hp with rfl | rfl | rfl | rfl | rfl | rfl
  · exact Or.inl ⟨rfl, rfl, rfl⟩
  · exact Or.inl ⟨rfl, rfl, rfl⟩
  · exact Or.inl ⟨rfl, rfl, rfl⟩
  · exact Or.inl ⟨rfl, rfl, rfl⟩
  · exact Or.inr ⟨hpublish _, hpublish _⟩
  · exact Or.inl ⟨rfl, rfl, rfl⟩

/-- A subscription on a topic of its project. -/
theorem subscribed_isolated : sampleDecoders.Isolated callerOfA (projectName "b")
    (subscribedPairs "projects/a/topics/t") := by
  have hlocal : ∀ a ∈ subscribedRun "projects/a/topics/t" [1], ∀ call,
      sampleDecoders.call a = some call → call.InProject := by
    intro a ha call hcall
    simp only [subscribedRun, List.mem_cons, List.not_mem_nil, or_false] at ha
    rcases ha with rfl | rfl | rfl | rfl | rfl | rfl
    · rw [call_unaryStep rfl (by decide +kernel) rfl] at hcall
      exact Option.some.inj hcall ▸ trivial
    · rw [call_unaryStep rfl (by decide +kernel) rfl] at hcall
      exact Option.some.inj hcall ▸ trivial
    · rw [call_unaryStep rfl (by decide +kernel) rfl] at hcall
      exact Option.some.inj hcall ▸ ⟨by decide +kernel, nofun⟩
    · rw [call_unaryStep rfl (by decide +kernel) rfl] at hcall
      exact Option.some.inj hcall ▸ trivial
    · rw [call_unaryStep rfl (by decide +kernel) rfl] at hcall
      exact Option.some.inj hcall ▸ trivial
    · rw [call_unaryStep rfl (by decide +kernel) rfl] at hcall
      exact Option.some.inj hcall ▸ trivial
  have hrun : (subscribedPairs "projects/a/topics/t").map Prod.fst =
      subscribedRun "projects/a/topics/t" [1] := rfl
  refine isolated_of_keepsApart (subscribedPairs_differ _) fun pre p hpre => ?_
  refine keepsApart_of_inProject (by decide) (by decide +kernel) (by decide +kernel)
    (fun call hmem => ?_) fun hother => ?_
  · obtain ⟨a, ha, hcall⟩ := List.mem_filterMap.mp hmem
    obtain ⟨q, hq, rfl⟩ := List.mem_map.mp ha
    refine hlocal _ ?_ call hcall
    rw [← hrun]
    exact List.mem_map_of_mem (hpre.subset (List.mem_append_left _ hq))
  · have hp : p.1 ∈ subscribedRun "projects/a/topics/t" [1] := by
      rw [← hrun]
      exact List.mem_map_of_mem (hpre.subset (by simp))
    have hgrpc : ∀ a ∈ subscribedRun "projects/a/topics/t" [1],
        ∃ request, a.request = .grpc 0 request := by
      simp [subscribedRun, unaryStep]
    obtain ⟨request, heq⟩ := hgrpc p.1 hp
    exact absurd heq (hother 0 request)

/-- A subscription of `a` whose dead letters go to a topic of `b`, and a message that
is pulled six times. -/
def deadLetterRun : List ApiStep :=
  [unaryStep callerOfA (.createTopic { name := "projects/a/topics/t" }) 0,
    unaryStep callerOfB (.createTopic { name := "projects/b/topics/t" }) 1,
    unaryStep callerOfA (.createSubscription
      { name := "projects/a/subscriptions/s"
        topic := "projects/a/topics/t"
        deadLetterPolicy := some ⟨"projects/b/topics/t", 5⟩
        retryPolicy := some ⟨none, none⟩ }) 2,
    unaryStep callerOfA (.publish "projects/a/topics/t" [plainMessage [1]]) 3] ++
  (List.range 6).map fun k => unaryStep callerOfA (.pull "projects/a/subscriptions/s" 1) (k + 4)

/-- The data of the messages an answer holds. -/
def deliveredData : PullAnswer → List Bytes
  | .returned (.ok deliveries) => deliveries.map (·.message.data)
  | _ => []

/-- **Two ways out of a project.** A caller that is not allowed in it creates a
subscription on one of its topics, and pulls what is published there; or one with
dead letters, which a pull of the caller appends to a topic there. -/
theorem not_isolated :
    ((∀ p ∈ subscribedPairs "projects/b/topics/t", sampleDecoders.DiffersIn (projectName "b") p) ∧
      ¬sampleDecoders.Isolated callerOfA (projectName "b")
        (subscribedPairs "projects/b/topics/t")) ∧
    ¬sampleDecoders.Isolated callerOfA (projectName "b") (deadLetterRun.map fun a => (a, a)) := by
  refine ⟨⟨subscribedPairs_differ _, fun h => ?_⟩, fun h => ?_⟩
  · obtain ⟨hanswer, -⟩ := h ((subscribedPairs "projects/b/topics/t").take 5)
      (unaryStep callerOfA (.pull "projects/a/subscriptions/s" 1) 5,
        unaryStep callerOfA (.pull "projects/a/subscriptions/s" 1) 5) (List.prefix_refl _) rfl
      "projects/a/subscriptions/s" 1 (call_unaryStep rfl (by decide +kernel) rfl)
    exact absurd (congrArg deliveredData hanswer) (by decide +kernel)
  · obtain ⟨-, hunchanged⟩ := h ((deadLetterRun.take 9).map fun a => (a, a))
      (unaryStep callerOfA (.pull "projects/a/subscriptions/s" 1) 9,
        unaryStep callerOfA (.pull "projects/a/subscriptions/s" 1) 9) (List.prefix_refl _) rfl
      "projects/a/subscriptions/s" 1 (call_unaryStep rfl (by decide +kernel) rfl)
    have hlength := congrArg (Option.map fun t : TopicState => t.messages.length)
      (hunchanged "projects/b/topics/t" (by decide +kernel)).1
    exact absurd hlength (by decide +kernel)

end RelayPubsub
