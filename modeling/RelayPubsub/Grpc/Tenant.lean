import RelayPubsub.Grpc.Service
import RelayPubsub.Memory.Exec
import RelayPubsub.Memory.Listing

/-!
# What a unary gRPC request acts on

Nearly every handler hands the backend the string it has authorized, and a
listing of a project names resources below that project
(`RelayPubsub.Grpc.follows_of_plan`). Two handlers do not:

| handler | authorizes | acts on |
|---|---|---|
| `create_schema` | `parent` | `schema.name`, if there is one |
| `list_topic_subscriptions` | the topic | subscriptions of any project |

So a request stays within the projects of the caller exactly when the schema it
creates does, and the subscriptions of the topic it lists do
(`RelayPubsub.Grpc.confined_iff`).
-/

namespace RelayPubsub.Grpc

open Lib Memory

/-- **The resources a listing answers**: their names. -/
def returned (st : State) : BackendCall → List Text
  | .listTopics project pageSize pageToken =>
    (Memory.listTopics st project pageSize pageToken).items.map (·.name)
  | .listTopicSubscriptions topic pageSize pageToken =>
    match Memory.listTopicSubscriptions st topic pageSize pageToken with
    | .ok page => page.items
    | .error _ => []
  | .listSubscriptions project pageSize pageToken =>
    (Memory.listSubscriptions st project pageSize pageToken).items.map (·.name)
  | .listSnapshots project pageSize pageToken =>
    (Memory.listSnapshots st project pageSize pageToken).items.map (·.name)
  | .listSchemas parent pageSize pageToken =>
    (Memory.listSchemas st parent pageSize pageToken).items.map (·.name)
  | _ => []

/-- **A call stays within the projects of the caller**: what it acts on and what
it lists is there. -/
structure Confined (ctx : AuthContext) (st : State) (call : BackendCall) : Prop where
  target : ∀ name, call.target = some name → Allowed ctx name
  listed : ∀ name ∈ returned st call, Allowed ctx name

/-- The request, for another page of what it lists. -/
def Request.page (pageSize : Int32) (pageToken : Text) : Request → Request
  | .listTopics project _ _ => .listTopics project pageSize pageToken
  | .listTopicSubscriptions topic _ _ => .listTopicSubscriptions topic pageSize pageToken
  | .listSubscriptions project _ _ => .listSubscriptions project pageSize pageToken
  | .listSnapshots project _ _ => .listSnapshots project pageSize pageToken
  | .listSchemas parent _ _ => .listSchemas parent pageSize pageToken
  | request => request

/-- The two requests that may leave the projects of the caller do not: the schema
that is created is in one of them, and so are the subscriptions attached to the
topic. A schema without a name gets one below the parent, which is in the
parent's project unless the parent is `projects/`. -/
def StaysInside (ctx : AuthContext) (st : State) : Request → Prop
  | .createSchema parent (some schema) _ =>
    if schema.name = [] then
      trimEndMatches ['/'] parent = "projects".toList → Allowed ctx "projects/schemas"
    else Allowed ctx schema.name
  | .listTopicSubscriptions topic _ _ =>
    topic ∈ st.topics → ∀ (k : Text) (sub : SubscriptionState), st.subscriptions[k]? = some sub →
      sub.spec.topic = topic → Allowed ctx sub.spec.name
  | _ => True

/-! ### What a request acts on -/

/-- What a decoded value comes from. -/
theorem exists_of_map_ok {α β : Type} {e : Except Status α} {f : α → β} {b : β}
    (h : e.map f = .ok b) : ∃ a, e = .ok a ∧ f a = b := by
  cases e with
  | error status => cases h
  | ok a => exact ⟨a, rfl, Except.ok.inj h⟩

section Names

theorem name_of_topicFromProto {value : Topic} {spec : TopicSpec}
    (h : topicFromProto value = .ok spec) : spec.name = value.name := by
  unfold topicFromProto at h
  split at h
  · cases h
  · rw [← Except.ok.inj h]

theorem name_of_subscriptionFromProto {value : Subscription} {spec : SubscriptionSpec}
    (h : subscriptionFromProto value = .ok spec) : spec.name = value.name := by
  unfold subscriptionFromProto at h
  split at h
  · cases h
  split at h
  · cases h
  · rw [← Except.ok.inj h]

theorem name_of_snapshotFromProto {fromTimestamp : Int64 → UInt32 → Option Time} {now : Time}
    {value : Snapshot} {spec : SnapshotSpec}
    (h : snapshotFromProto fromTimestamp now value = .ok spec) : spec.name = value.name := by
  unfold snapshotFromProto at h
  split at h
  · cases h
  split at h
  · cases h
  · rw [← Except.ok.inj h]

theorem name_of_schemaFromProto {value : Schema} {spec : SchemaSpec}
    (h : schemaFromProto value = .ok spec) : spec.name = value.name := by
  unfold schemaFromProto at h
  split at h
  · cases h
  · rw [← Except.ok.inj h]

end Names

section Plan

variable {fromTimestamp : Int64 → UInt32 → Option Time} {now : Time} {r : Request} {p : Plan}
  {call : BackendCall} {name : Text}

/-- **A call follows the string that was authorized**: it acts on that resource, and
lists resources below it. -/
structure Follows (resource : Text) (call : BackendCall) : Prop where
  target : ∀ name, call.target = some name → name = resource
  listed : ∀ st, ∀ name ∈ returned st call, belongsToProject name resource

/-- A call that acts on something lists nothing. -/
theorem Follows.of_target {resource : Text} (h : call.target = some resource) :
    Follows resource call := by
  refine ⟨fun name hname => Option.some.inj (hname.symm.trans h), fun st name hname => ?_⟩
  cases call with
  | listTopics _ _ _ | listTopicSubscriptions _ _ _ | listSubscriptions _ _ _
  | listSnapshots _ _ _ | listSchemas _ _ _ => cases h
  | _ => cases hname

/-- A page of a project. -/
theorem Follows.of_list {α : Type} {f : α → Text} {items : State → List α} {project : Text}
    {pageSize : Int32} {pageToken : Text} (htarget : call.target = none)
    (h : ∀ st, returned st call =
      (listOfProject f (items st) project pageSize pageToken).items.map f) :
    Follows project call := by
  refine ⟨fun name hname => ?_, fun st name hname => ?_⟩
  · rw [htarget] at hname
    cases hname
  · rw [h] at hname
    obtain ⟨x, hx, rfl⟩ := List.mem_map.mp hname
    exact belongs_of_mem_listOfProject hx

/-- **A handler follows what it has authorized**, unless it creates a schema or
lists the subscriptions of a topic. -/
theorem follows_of_plan
    (hschema : ∀ parent schema schemaId, r ≠ .createSchema parent schema schemaId)
    (hlist : ∀ topic pageSize pageToken, r ≠ .listTopicSubscriptions topic pageSize pageToken)
    (hp : plan fromTimestamp now r = .ok p) (hc : p.call = .ok call) : Follows p.resource call := by
  cases r with
  | createTopic topic =>
    cases hp
    obtain ⟨spec, hspec, rfl⟩ := exists_of_map_ok hc
    exact .of_target (congrArg some (name_of_topicFromProto hspec))
  | updateTopic topic mask =>
    cases topic with
    | none => cases hp
    | some topic =>
      cases hp
      obtain ⟨spec, hspec, rfl⟩ := exists_of_map_ok hc
      exact .of_target (congrArg some (name_of_topicFromProto hspec))
  | listTopics project pageSize pageToken =>
    cases hp
    cases hc
    exact .of_list rfl fun _ => rfl
  | publish topic messages =>
    cases hp
    unfold publish at hc
    dsimp only at hc
    split at hc
    · cases hc
    · cases hc
      exact .of_target rfl
  | setIamPolicy resource policy =>
    cases hp
    cases policy with
    | none => cases hc
    | some policy =>
      cases hc
      exact .of_target rfl
  | createSubscription subscription =>
    cases hp
    obtain ⟨spec, hspec, rfl⟩ := exists_of_map_ok hc
    exact .of_target (congrArg some (name_of_subscriptionFromProto hspec))
  | updateSubscription subscription mask =>
    cases subscription with
    | none => cases hp
    | some subscription =>
      cases hp
      obtain ⟨spec, hspec, rfl⟩ := exists_of_map_ok hc
      exact .of_target (congrArg some (name_of_subscriptionFromProto hspec))
  | listSubscriptions project pageSize pageToken =>
    cases hp
    cases hc
    exact .of_list rfl fun _ => rfl
  | modifyAckDeadline subscription ackIds ackDeadlineSeconds =>
    cases hp
    unfold modifyAckDeadline at hc
    dsimp only at hc
    split at hc
    · cases hc
    · cases hc
      exact .of_target rfl
  | seek subscription target =>
    cases hp
    match target, hc with
    | none, hc => cases hc
    | some (.time ts), hc =>
      obtain ⟨time, -, rfl⟩ := exists_of_map_ok hc
      exact .of_target rfl
    | some (.snapshot snapshot), hc =>
      cases hc
      exact .of_target rfl
  | updateSnapshot snapshot mask =>
    cases snapshot with
    | none => cases hp
    | some snapshot =>
      cases hp
      obtain ⟨spec, hspec, rfl⟩ := exists_of_map_ok hc
      exact .of_target (congrArg some (name_of_snapshotFromProto hspec))
  | listSnapshots project pageSize pageToken =>
    cases hp
    cases hc
    exact .of_list rfl fun _ => rfl
  | createSchema parent schema schemaId => exact absurd rfl (hschema parent schema schemaId)
  | listTopicSubscriptions topic pageSize pageToken =>
    exact absurd rfl (hlist topic pageSize pageToken)
  | listSchemas parent pageSize pageToken =>
    cases hp
    cases hc
    exact .of_list rfl fun _ => rfl
  | validateSchema parent schema =>
    cases hp
    cases schema with
    | none => cases hc
    | some schema =>
      obtain ⟨spec, -, rfl⟩ := exists_of_map_ok hc
      exact ⟨nofun, nofun⟩
  | validateMessage parent schemaSpec message =>
    cases hp
    match schemaSpec, hc with
    | none, hc => cases hc
    | some (.name n), hc =>
      cases hc
      exact ⟨nofun, nofun⟩
    | some (.schema schema), hc =>
      obtain ⟨spec, -, rfl⟩ := exists_of_map_ok hc
      exact ⟨nofun, nofun⟩
  | getTopic _ | getIamPolicy _ | testIamPermissions _ _ | getSubscription _ | getSnapshot _
  | getSchema _ =>
    cases hp
    cases hc
    exact ⟨nofun, nofun⟩
  | deleteTopic _ | deleteSubscription _ | modifyPushConfig _ _ | pull _ _ | acknowledge _ _
  | createSnapshot _ _ _ | deleteSnapshot _ | deleteSchema _ =>
    cases hp
    cases hc
    exact .of_target rfl

/-- The schema a request creates. -/
theorem call_of_createSchema {parent schemaId : Text} {schema : Option Schema}
    (hc : (createSchema parent schema schemaId).call = .ok call) :
    ∃ s spec, schema = some s ∧ call = .createSchema spec ∧
      spec.name = schemaName parent s schemaId := by
  cases schema with
  | none => cases hc
  | some s =>
    unfold createSchema at hc
    dsimp only at hc
    split at hc
    · cases hc
    · obtain ⟨spec, hspec, rfl⟩ := exists_of_map_ok hc
      exact ⟨s, spec, rfl, rfl, name_of_schemaFromProto hspec⟩

end Plan

/-! ### Whether a request stays inside -/

section Confined

variable {ctx : AuthContext} {st : State} {fromTimestamp : Int64 → UInt32 → Option Time}
  {now : Time} {r : Request} {call : BackendCall}

/-- A caller is allowed on what belongs to a resource it is allowed on. -/
theorem allowed_of_belongs {resource below : Text} (h : Allowed ctx resource)
    (hbelow : belongsToProject below resource) : Allowed ctx below := by
  obtain ⟨rest, rfl⟩ := hbelow
  rw [List.append_assoc, List.singleton_append]
  exact h.append rest

theorem Follows.confined {resource : Text} (hf : Follows resource call)
    (h : Allowed ctx resource) : Confined ctx st call where
  target name hname := hf.target name hname ▸ h
  listed name hname := allowed_of_belongs h (hf.listed st name hname)

/-- A parent in a project is in it also without the slashes at its end, unless it
is `projects/`. -/
theorem projectOf_trimEnd {parent project : Text} (h : projectOf parent = some project) :
    projectOf (trimEndMatches ['/'] parent) = some project ∨
      trimEndMatches ['/'] parent = "projects".toList := by
  refine trimEndMatches_induction (P := fun t => projectOf t = some project ∨
    t = "projects".toList) (fun s t hs heq => ?_) (Or.inl h)
  subst heq
  rcases hs with hs | hs
  · exact projectOf_of_slash hs
  · exact absurd (hs ▸ List.mem_append_right t List.mem_cons_self) slash_notMem_projects

/-- **The name a schema without one gets is in the project of its parent**, unless
the parent is `projects/`. -/
theorem allowed_schemaName_iff {parent schemaId : Text} {schema : Schema}
    (h : Allowed ctx parent) :
    Allowed ctx (schemaName parent schema schemaId) ↔
      if schema.name = [] then
        trimEndMatches ['/'] parent = "projects".toList → Allowed ctx "projects/schemas"
      else Allowed ctx schema.name := by
  unfold schemaName
  split
  swap
  · exact Iff.rfl
  have hname : trimEndMatches ['/'] parent ++ "/schemas/".toList ++ schemaId =
      trimEndMatches ['/'] parent ++ '/' :: ("schemas".toList ++ '/' :: schemaId) := by
    have hschemas : "/schemas/".toList = '/' :: ("schemas".toList ++ ['/']) := by decide +kernel
    rw [hschemas, List.append_assoc, List.cons_append, List.append_assoc, List.singleton_append]
  rw [hname]
  rcases eq_or_ne ctx.allowedProjects [] with hnil | hprojects
  · exact iff_of_true (allowed_of_nil hnil) fun _ => allowed_of_nil hnil
  obtain ⟨project, hproject⟩ := h.exists_project hprojects
  by_cases htrim : trimEndMatches ['/'] parent = "projects".toList
  · have heq : projectOf ("projects".toList ++ '/' :: ("schemas".toList ++ '/' :: schemaId)) =
        projectOf "projects/schemas" := by
      have hschemas : '/' ∉ "schemas".toList := by decide +kernel
      have hbelow : projectOf (projectName "schemas" ++ '/' :: schemaId) =
          some (projectName "schemas") := projectOf_below hschemas
      rw [projectName_eq, List.append_assoc, List.cons_append] at hbelow
      rw [hbelow]
      decide +kernel
    rw [htrim]
    exact ⟨fun hallowed _ => hallowed.of_projectOf_eq heq.symm,
      fun hallowed => (hallowed rfl).of_projectOf_eq heq⟩
  · refine iff_of_true ?_ fun heq => absurd heq htrim
    have hbelow : projectOf (trimEndMatches ['/'] parent ++
        '/' :: ("schemas".toList ++ '/' :: schemaId)) = some project :=
      projectOf_append ((projectOf_trimEnd hproject).resolve_right htrim)
    exact h.of_projectOf_eq (hbelow.trans hproject.symm)

/-- A request that leads to a call has been authorized. -/
theorem unary_ok_iff :
    unary fromTimestamp now (some (.ok ctx)) r = .ok call ↔
      ∃ p, plan fromTimestamp now r = .ok p ∧ Allowed ctx p.resource ∧ p.call = .ok call := by
  unfold unary authorize Allowed
  rcases plan fromTimestamp now r with status | p
  · simp [bind, Except.bind]
  · rcases hauth : authorizeResource ctx p.resource with e | u
    · simp [bind, Except.bind, Except.mapError, hauth]
    · simp [bind, Except.bind, Except.mapError, hauth]

/-- **A unary request stays within the projects of the caller, exactly if the
schema it creates and the subscriptions of the topic it lists do.** -/
theorem confined_iff (hsize : st.subscriptions.size < 2 ^ 64)
    (h : unary fromTimestamp now (some (.ok ctx)) r = .ok call) :
    (∀ pageSize pageToken c,
        unary fromTimestamp now (some (.ok ctx)) (r.page pageSize pageToken) = .ok c →
        Confined ctx st c) ↔
      StaysInside ctx st r := by
  obtain ⟨p, hp, hallowed, hcall⟩ := unary_ok_iff.mp h
  cases r with
  | createSchema parent schema schemaId =>
    cases hp
    obtain ⟨s, spec, rfl, rfl, hname⟩ := call_of_createSchema hcall
    -- the schema may have a name of its own
    have hiff : Allowed ctx (schemaName parent s schemaId) ↔ _ := allowed_schemaName_iff hallowed
    refine ⟨fun hconfined => hiff.mp ?_, fun hinside pageSize pageToken c hc => ?_⟩
    · exact (hconfined 0 [] _ h).target _ (congrArg some hname)
    · obtain ⟨p, hp, -, hc⟩ := unary_ok_iff.mp hc
      cases hp
      obtain ⟨s, spec, hs, rfl, hname⟩ := call_of_createSchema hc
      cases hs
      have htarget : (BackendCall.createSchema spec).target =
          some (schemaName parent s schemaId) := congrArg some hname
      exact (Follows.of_target htarget).confined (hiff.mpr hinside)
  | listTopicSubscriptions topic pageSize pageToken =>
    cases hp
    refine ⟨fun hconfined hmem k sub hsub htopic => ?_, fun hinside pageSize pageToken c hc => ?_⟩
    · -- every subscription is on some page
      have hlen : (topicSubscriptions st topic).length < 2 ^ 64 :=
        (length_topicSubscriptions_le topic).trans_lt hsize
      obtain ⟨token, htoken⟩ := exists_mem_paginate hlen
        (mem_topicSubscriptions.mpr ⟨k, sub, hsub, htopic, rfl⟩)
      refine (hconfined 1 token _ (unary_ok_iff.mpr ⟨_, rfl, hallowed, rfl⟩)).listed _ ?_
      simpa [returned, Memory.listTopicSubscriptions, hmem] using htoken
    · obtain ⟨p, hp, -, hc⟩ := unary_ok_iff.mp hc
      cases hp
      cases hc
      refine ⟨nofun, fun name hname => ?_⟩
      by_cases hmem : topic ∈ st.topics
      · have hpage : name ∈ (paginate (topicSubscriptions st topic) pageSize pageToken).items := by
          simpa [returned, Memory.listTopicSubscriptions, hmem] using hname
        obtain ⟨k, sub, hsub, htopic, rfl⟩ :=
          mem_topicSubscriptions.mp (mem_of_mem_paginate hpage)
        exact hinside hmem k sub hsub htopic
      · simp [returned, Memory.listTopicSubscriptions, hmem] at hname
  | _ =>
    refine iff_of_true (fun pageSize pageToken c hc => ?_) trivial
    obtain ⟨p, hp, hallowed, hc⟩ := unary_ok_iff.mp hc
    refine (follows_of_plan ?_ ?_ hp hc).confined hallowed
    · rintro _ _ _ ⟨⟩
    · rintro _ _ _ ⟨⟩

end Confined

/-- A caller allowed in one project. -/
def sampleCaller : AuthContext := ⟨"caller", [projectName "a"]⟩

/-- A pull stays inside. -/
theorem pull_confined : Confined sampleCaller {}
    (.pull "projects/a/subscriptions/s" 1) :=
  (@confined_iff sampleCaller {} (fun _ _ => none) 0 (.pull "projects/a/subscriptions/s" 1)
    (.pull "projects/a/subscriptions/s" 1) (by decide +kernel)
    (unary_ok_iff.mpr ⟨_, rfl, by decide +kernel, rfl⟩)).mpr trivial 0 [] _
    (unary_ok_iff.mpr ⟨_, rfl, by decide +kernel, rfl⟩)

/-- A topic of one project, with a subscription of another. -/
def sharedTopic : State :=
  stateAfter noJson (Run.ofCalls
    [(0, .createTopic { name := "projects/a/topics/t" }),
      (1, .createSubscription
        { name := "projects/b/subscriptions/s"
          topic := "projects/a/topics/t"
          ackDeadlineSeconds := 10 })]).steps

/-- Two requests of a caller allowed in one project that reach another: the schema
created is named by its own field, and the subscriptions of a topic are listed
whatever their project. -/
theorem request_leaves_project :
    (∃ call, unary (fun _ _ => none) 0 (some (.ok sampleCaller))
        (.createSchema (projectName "a") (some ⟨"projects/b/schemas/s", 0, "x"⟩) []) = .ok call ∧
      ¬Confined sampleCaller {} call) ∧
    ∃ call, unary (fun _ _ => none) 0 (some (.ok sampleCaller))
        (.listTopicSubscriptions "projects/a/topics/t" 0 []) = .ok call ∧
      ¬Confined sampleCaller sharedTopic call := by
  refine ⟨⟨_, unary_ok_iff.mpr ⟨_, rfl, by decide +kernel, rfl⟩, fun h => ?_⟩,
    ⟨_, unary_ok_iff.mpr ⟨_, rfl, by decide +kernel, rfl⟩, fun h => ?_⟩⟩
  · exact absurd (h.target "projects/b/schemas/s" rfl) (by decide +kernel)
  · exact absurd (h.listed "projects/b/subscriptions/s" (by decide +kernel))
      (by decide +kernel)

end RelayPubsub.Grpc
