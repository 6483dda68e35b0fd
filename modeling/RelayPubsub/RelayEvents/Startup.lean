import RelayPubsub.Memory.Exec

/-!
# The start of a gateway to Relay

With the Relay events backend, `main` registers the topics of a fixed catalog, the topic of
the actions, and a subscription to it, before it serves anything (`src/main.rs`,
`src/config.rs`). It does so at every start, over whatever the state file holds, and does not
look at the answers.

| the store has | a start |
|---|---|
| a topic of the catalog, with its messages | leaves it as it is |
| no such topic | creates it, without messages |
| the subscription, with its cursor and leases | leaves it as it is |
| no such subscription | creates it, with the cursor at the end of the actions |

So the store after a start is told from the store before
(`RelayPubsub.RelayEvents.start_registers`), and another start changes nothing.
-/

namespace RelayPubsub.RelayEvents

open Lib Memory

/-! ### The configuration -/

def fasalCatalog : List Text :=
  ["irrigation.required", "soil.moisture.critical", "fertigation.required",
    "disease.risk.critical", "device.control.required", "crop.advisory", "weather.advisory",
    "spray.advisory", "frost.alert", "pest.advisory"]

def edgeCatalog : List Text :=
  ["firewater.tank.low", "firewater.pressure.low", "firewater.demand.active",
    "firewater.pump.fail", "firewater.valve.closed", "firewater.flow.detected",
    "firewater.freeze.risk", "firewater.hydrant.tamper", "firewater.leak.acoustic",
    "firewater.pump.vibration", "edge.vision.fire", "edge.comms.down", "edge.power.fail",
    "edge.gas.alarm", "edge.control.fault", "edge.access.breach", "edge.runtime.down",
    "telemetry.sample"]

def remoteEdgeCatalog : List Text :=
  ["remote-edge.link.starlink.degraded", "remote-edge.link.offline",
    "remote-edge.galleon.thermal", "remote-edge.vision.intrusion", "remote-edge.iot.flood",
    "remote-edge.uav.rtb"]

def fleetCatalog : List Text :=
  ["fleet.power.island", "fleet.robot.lost", "fleet.ot.ids", "fleet.env.exceedance",
    "fleet.dc.thermal", "fleet.access.fault"]

def relayEventsCatalog : List Text :=
  fasalCatalog ++ edgeCatalog ++ remoteEdgeCatalog ++ fleetCatalog

/-- What a start reads of the configuration. -/
structure Config where
  fasalGcpProject : Text := "fasal-onprem"
  fasalActionsTopic : Text := "farm-actions"
  fasalActionsSubscription : Text := "farm-actions-sub"

namespace Config

variable (config : Config)

def topicName (name : Text) : Text :=
  "projects/" ++ config.fasalGcpProject ++ "/topics/" ++ name

def actionsTopic : Text := config.topicName config.fasalActionsTopic

def actionsSubscription : Text :=
  "projects/" ++ config.fasalGcpProject ++ "/subscriptions/" ++ config.fasalActionsSubscription

/-- The topics that are registered. -/
def registered : List Text :=
  relayEventsCatalog.map config.topicName ++ [config.actionsTopic]

def actionsSpec : SubscriptionSpec where
  name := config.actionsSubscription
  topic := config.actionsTopic
  ackDeadlineSeconds := 30

/-- **The calls of a start.** -/
def startup : List BackendCall :=
  config.registered.map (fun name => .createTopic { name }) ++
    [.createSubscription config.actionsSpec]

/-- They pass the checks of the names. -/
theorem topicName_valid (name : Text) :
    "projects/".toList <+: config.topicName name ∧
      "/topics/".toList <:+: config.topicName name := by
  refine ⟨?_, ⟨"projects/".toList ++ config.fasalGcpProject, name, rfl⟩⟩
  unfold topicName
  rw [List.append_assoc, List.append_assoc]
  exact List.prefix_append _ _

theorem registered_valid {name : Text} (h : name ∈ config.registered) :
    "projects/".toList <+: name ∧ "/topics/".toList <:+: name := by
  rcases List.mem_append.mp h with h | h
  · obtain ⟨name, -, rfl⟩ := List.mem_map.mp h
    exact config.topicName_valid name
  · rw [List.mem_singleton.mp h]
    exact config.topicName_valid _

theorem actionsSubscription_valid : "projects/".toList <+: config.actionsSubscription ∧
    "/subscriptions/".toList <:+: config.actionsSubscription := by
  refine ⟨?_, ⟨"projects/".toList ++ config.fasalGcpProject, config.fasalActionsSubscription, rfl⟩⟩
  unfold actionsSubscription
  rw [List.append_assoc, List.append_assoc]
  exact List.prefix_append _ _

end Config

/-! ### What a start does -/

/-- A topic as it is registered. -/
def registeredTopic (name : Text) : TopicState := ⟨{ name }, [], ∅⟩

/-- **Topics are there**: those that were, as they were, and the others empty. -/
structure TopicsThere (names : List Text) (st st' : State) : Prop where
  topics : ∀ k : Text, st'.topics[k]? =
    st.topics[k]?.or (if k ∈ names then some (registeredTopic k) else none)
  subscriptions : st'.subscriptions = st.subscriptions
  snapshots : st'.snapshots = st.snapshots
  schemas : st'.schemas = st.schemas
  iam : st'.iam = st.iam

/-- **What a start leaves**: the topics of the configuration and the subscription to the
actions are there, and everything that was there before is as it was. -/
structure Registers (config : Config) (st st' : State) : Prop where
  topics : ∀ k : Text, st'.topics[k]? =
    st.topics[k]?.or (if k ∈ config.registered then some (registeredTopic k) else none)
  subscriptions : ∀ k : Text, st'.subscriptions[k]? =
    st.subscriptions[k]?.or (if k = config.actionsSubscription then
      some (.created config.actionsSpec
        ((st.topics[config.actionsTopic]?.map (·.messages.length)).getD 0)) else none)
  snapshots : st'.snapshots = st.snapshots
  schemas : st'.schemas = st.schemas
  iam : st'.iam = st.iam

section Start

variable {serde : SerdeJson} {config : Config} {st st' : State}

/-- One topic. -/
theorem topicsThere_exec {s : Step} {name : Text} (hcall : s.call = .createTopic { name })
    (hvalid : "projects/".toList <+: name ∧ "/topics/".toList <:+: name) :
    TopicsThere [name] st (exec serde st s) := by
  unfold exec
  simp only [hcall]
  unfold createTopic
  have hname : ¬(¬"projects/".toList <+: name ∨ ¬"/topics/".toList <:+: name) := by
    rintro (h | h)
    · exact h hvalid.1
    · exact h hvalid.2
  rw [if_neg hname]
  by_cases hmem : name ∈ st.topics
  · rw [if_pos hmem]
    refine ⟨fun k => ?_, rfl, rfl, rfl, rfl⟩
    by_cases hk : k = name
    · subst hk
      obtain ⟨topic, htopic⟩ :=
        Option.isSome_iff_exists.mp (Std.ExtTreeMap.mem_iff_isSome_getElem?.mp hmem)
      rw [htopic, Option.some_or]
    · rw [if_neg (by simpa using hk), Option.or_none]
  · rw [if_neg hmem, answer_snd]
    refine ⟨fun k => ?_, rfl, rfl, rfl, rfl⟩
    by_cases hk : k = name
    · subst hk
      rw [if_pos (List.mem_singleton_self _), Std.ExtTreeMap.getElem?_eq_none hmem, Option.none_or]
      exact Std.ExtTreeMap.getElem?_insert_self
    · rw [if_neg (by simpa using hk), Option.or_none]
      exact getElem?_insert_of_ne (Ne.symm hk)

theorem TopicsThere.trans {names names' : List Text} {st'' : State}
    (h : TopicsThere names st st') (h' : TopicsThere names' st' st'') :
    TopicsThere (names ++ names') st st'' where
  topics k := by
    rw [h'.topics, h.topics, Option.or_assoc]
    congr 1
    by_cases hk : k ∈ names
    · rw [if_pos hk, if_pos (List.mem_append_left _ hk), Option.some_or]
    · rw [if_neg hk, Option.none_or]
      simp only [List.mem_append, hk, false_or]
  subscriptions := h'.subscriptions.trans h.subscriptions
  snapshots := h'.snapshots.trans h.snapshots
  schemas := h'.schemas.trans h.schemas
  iam := h'.iam.trans h.iam

/-- Topics one after another. -/
theorem topicsThere_run {names : List Text} {steps : List Step}
    (hvalid : ∀ name ∈ names, "projects/".toList <+: name ∧ "/topics/".toList <:+: name)
    (hcalls : steps.map (·.call) = names.map fun name => .createTopic { name }) :
    TopicsThere names st (Machine.run (exec serde) st steps) := by
  induction names generalizing st steps with
  | nil =>
    obtain rfl := List.map_eq_nil_iff.mp hcalls
    exact ⟨fun k => by simp, rfl, rfl, rfl, rfl⟩
  | cons name names ih =>
    obtain ⟨s, steps, rfl, hcall, hcalls⟩ := List.map_eq_cons_iff.mp hcalls
    exact (topicsThere_exec hcall (hvalid name List.mem_cons_self)).trans
      (ih (fun n hn => hvalid n (List.mem_cons_of_mem _ hn)) hcalls)

/-- The length of the log of a topic that is registered if need be. -/
theorem TopicsThere.exists_topic {names : List Text} (h : TopicsThere names st st') {k : Text}
    (hk : k ∈ names) : ∃ topic, st'.topics[k]? = some topic ∧
      topic.messages.length = (st.topics[k]?.map (·.messages.length)).getD 0 := by
  rw [h.topics, if_pos hk]
  rcases st.topics[k]? with - | topic
  · exact ⟨_, rfl, rfl⟩
  · exact ⟨topic, rfl, rfl⟩

theorem actionsTopic_mem : config.actionsTopic ∈ config.registered :=
  List.mem_append_right _ (List.mem_singleton_self _)

/-- The creation of the subscription, where the topic is there and it is not. -/
theorem createSubscription_actions {env : Env} {topic : TopicState}
    (hnew : config.actionsSpec.name ∉ st.subscriptions)
    (htopic : st.topics[config.actionsTopic]? = some topic) :
    createSubscription env st config.actionsSpec =
      answer env config.actionsSpec { st with
        subscriptions := st.subscriptions.insert config.actionsSubscription
          (.created config.actionsSpec topic.messages.length) } := by
  have hname : ¬(¬"projects/".toList <+: config.actionsSpec.name ∨
      ¬"/subscriptions/".toList <:+: config.actionsSpec.name) := by
    rintro (h | h)
    · exact h config.actionsSubscription_valid.1
    · exact h config.actionsSubscription_valid.2
  have hfilter : trim config.actionsSpec.filter = [] := rfl
  have hdeadline : normalizeAckDeadline (max config.actionsSpec.ackDeadlineSeconds 10) = 30 :=
    (by decide : normalizeAckDeadline (max 30 10) = 30)
  have htopic' : st.topics[config.actionsSpec.topic]? = some topic := htopic
  unfold createSubscription
  rw [if_neg hname, if_neg hnew, if_pos hfilter]
  simp only [htopic', hdeadline]
  rfl

/-- The subscription to the actions. -/
theorem TopicsThere.registers {s : Step} (h : TopicsThere config.registered st st')
    (hcall : s.call = .createSubscription config.actionsSpec) :
    Registers config st (exec serde st' s) := by
  obtain ⟨topic, htopic, hlength⟩ := h.exists_topic actionsTopic_mem
  unfold exec
  simp only [hcall]
  by_cases hmem : config.actionsSpec.name ∈ st'.subscriptions
  · -- it is there already
    have hsame : (createSubscription s.env st' config.actionsSpec).2 = st' := by
      unfold createSubscription
      rw [if_pos hmem]
      split_ifs <;> rfl
    rw [hsame]
    refine ⟨h.topics, fun k => ?_, h.snapshots, h.schemas, h.iam⟩
    rw [h.subscriptions] at hmem ⊢
    by_cases hk : k = config.actionsSubscription
    · subst hk
      obtain ⟨sub, hsub⟩ :=
        Option.isSome_iff_exists.mp (Std.ExtTreeMap.mem_iff_isSome_getElem?.mp hmem)
      have hsub' : st.subscriptions[config.actionsSubscription]? = some sub := hsub
      rw [hsub', Option.some_or]
    · rw [if_neg hk, Option.or_none]
  · rw [createSubscription_actions hmem htopic, answer_snd]
    refine ⟨h.topics, fun k => ?_, h.snapshots, h.schemas, h.iam⟩
    rw [h.subscriptions] at hmem
    rw [← h.subscriptions]
    by_cases hk : k = config.actionsSubscription
    · subst hk
      have hnone : st.subscriptions[config.actionsSubscription]? = none :=
        Std.ExtTreeMap.getElem?_eq_none hmem
      rw [h.subscriptions, if_pos rfl, hnone, Option.none_or, ← hlength]
      exact Std.ExtTreeMap.getElem?_insert_self
    · rw [if_neg hk, Option.or_none]
      exact getElem?_insert_of_ne (Ne.symm hk)

/-- **A start registers what is missing.** -/
theorem registers_run {steps : List Step} (hcalls : steps.map (·.call) = config.startup) :
    Registers config st (Machine.run (exec serde) st steps) := by
  obtain ⟨creates, last, rfl, hcreates, hlast⟩ := List.map_eq_append_iff.mp hcalls
  obtain ⟨s, rfl, hcall⟩ := List.map_eq_singleton_iff.mp hlast
  rw [Machine.run_concat]
  exact (topicsThere_run (fun _ => config.registered_valid) hcreates).registers hcall

/-- Where everything is registered there is nothing to do. -/
theorem Registers.eq {st'' : State} (h : Registers config st st') (h' : Registers config st' st'') :
    st'' = st' := by
  have htopics : st''.topics = st'.topics := by
    refine Std.ExtTreeMap.ext_getElem? fun k => ?_
    rw [h'.topics, h.topics, Option.or_assoc, Option.or_self]
  have hsubscriptions : st''.subscriptions = st'.subscriptions := by
    refine Std.ExtTreeMap.ext_getElem? fun k => ?_
    rw [h'.subscriptions]
    by_cases hk : k = config.actionsSubscription
    · rw [h.subscriptions, if_pos hk, Option.or_assoc, Option.some_or]
    · rw [if_neg hk, Option.or_none]
  obtain ⟨-, -, hsnapshots, hschemas, hiam⟩ := h'
  cases st''
  cases st'
  simp only [State.mk.injEq]
  exact ⟨htopics, hsubscriptions, hsnapshots, hschemas, hiam⟩

/-- The steps of a start, with what each call reads from outside. -/
@[irreducible] def Config.startSteps (config : Config) (env : ℕ → Env) : List Step :=
  config.startup.mapIdx fun k call => ⟨call, env k⟩

theorem call_startSteps (env : ℕ → Env) :
    (config.startSteps env).map (·.call) = config.startup := by
  refine List.ext_getElem? fun k => ?_
  rw [List.getElem?_map, Config.startSteps, List.getElem?_mapIdx, Option.map_map]
  exact Option.map_id_apply

end Start

/-- **A start is idempotent.** From any store, with any readings of the clock and also where
writing the state file fails: what was there is as it was, the topics of the configuration and
the subscription to the actions are there, and nothing else has changed; and another start
changes nothing. -/
theorem start_registers (serde : SerdeJson) (config : Config) (st : State) (env env' : ℕ → Env) :
    Registers config st (Machine.run (exec serde) st (config.startSteps env)) ∧
      Machine.run (exec serde) st (config.startSteps env ++ config.startSteps env') =
        Machine.run (exec serde) st (config.startSteps env) := by
  have h := @registers_run serde config st _ (call_startSteps env)
  refine ⟨h, ?_⟩
  rw [Machine.run_append]
  exact h.eq (registers_run (call_startSteps env'))

end RelayPubsub.RelayEvents
