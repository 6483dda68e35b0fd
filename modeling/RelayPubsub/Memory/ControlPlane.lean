import RelayPubsub.Memory.Directory
import RelayPubsub.Memory.Outcome

/-!
# The resources of a store

The store is a directory of resources (`RelayPubsub.Memory.Directory`) with messages in it.
Every operation on resources performs what the directory asks for, or refuses as the directory
does (`RelayPubsub.Memory.Performs`), so every call on resources is answered as the directory
answers it, at any time of a run.

Meanwhile messages may move as they like: no call on messages changes a resource, with one
exception. A pull that panics has taken its subscription out of the map and does not put it
back, which is to the directory as if it had been deleted
(`RelayPubsub.Memory.control_plane`).
-/

namespace RelayPubsub.Memory

open Lib

/-! ### Views of a map -/

section Views

variable {ρ ω : Type} {m : StrMap ρ} {f : ρ → ω}

theorem map_insert_eq (name : Text) (v : ρ) :
    (m.insert name v).map (fun _ v => f v) = (m.map fun _ v => f v).insert name (f v) := by
  ext1 k
  rw [Std.ExtTreeMap.getElem?_map, Std.ExtTreeMap.getElem?_insert, Std.ExtTreeMap.getElem?_insert]
  split_ifs
  · rfl
  · rw [Std.ExtTreeMap.getElem?_map]

theorem map_erase_eq (name : Text) :
    (m.erase name).map (fun _ v => f v) = (m.map fun _ v => f v).erase name := by
  ext1 k
  rw [Std.ExtTreeMap.getElem?_map, Std.ExtTreeMap.getElem?_erase, Std.ExtTreeMap.getElem?_erase]
  split_ifs
  · rfl
  · rw [Std.ExtTreeMap.getElem?_map]

theorem values_map : values (m.map fun _ v => f v) = (values m).map f := by
  rw [values, values, Std.ExtTreeMap.toList_map, List.map_map, List.map_map]
  rfl

end Views

/-! ### The directory in a store -/

/-- **The resources of a store**, without the messages. -/
def State.directory (st : State) : Directory where
  topics := st.topics.map fun _ topic => topic.spec
  subscriptions := st.subscriptions.map fun _ sub => sub.spec
  snapshots := st.snapshots.map fun _ snapshot => visible snapshot
  schemas := st.schemas
  policies := st.iam

/-- **What the store answers** to a call on resources. -/
def controlAnswer (serde : SerdeJson) (st : State) (s : Step) :
    Option (Except BackendError Answer) :=
  match s.call with
  | .createTopic topic => some ((createTopic s.env st topic).1.map .topic)
  | .updateTopic topic mask => some ((updateTopic s.env st topic mask).1.map .topic)
  | .deleteTopic name => some ((deleteTopic s.env st name).1.map fun _ => .done)
  | .createSubscription spec => some ((createSubscription s.env st spec).1.map .subscription)
  | .updateSubscription spec mask =>
    some ((updateSubscription s.env st spec mask).1.map .subscription)
  | .deleteSubscription name => some ((deleteSubscription s.env st name).1.map fun _ => .done)
  | .modifyPushConfig name endpoint attributes =>
    some ((modifyPushConfig s.env st name endpoint attributes).1.map fun _ => .done)
  | .createSnapshot name subscription labels =>
    some ((createSnapshot s.env st name subscription labels).1.map fun s => .snapshot (visible s))
  | .updateSnapshot snapshot mask =>
    some ((updateSnapshot s.env st snapshot mask).1.map fun s => .snapshot (visible s))
  | .deleteSnapshot name => some ((deleteSnapshot s.env st name).1.map fun _ => .done)
  | .setIamPolicy resource policy => some ((setIamPolicy s.env st resource policy).1.map .policy)
  | .createSchema schema => some ((createSchema serde s.env st schema).1.map .schema)
  | .deleteSchema name => some ((deleteSchema s.env st name).1.map fun _ => .done)
  | .getTopic name => some ((getTopic st name).map .topic)
  | .listTopics project pageSize pageToken =>
    some (.ok (.topics (listTopics st project pageSize pageToken)))
  | .listTopicSubscriptions topic pageSize pageToken =>
    some ((listTopicSubscriptions st topic pageSize pageToken).map .names)
  | .getSubscription name => some ((getSubscription st name).map .subscription)
  | .listSubscriptions project pageSize pageToken =>
    some (.ok (.subscriptions (listSubscriptions st project pageSize pageToken)))
  | .getSnapshot name => some ((getSnapshot st name).map fun s => .snapshot (visible s))
  | .listSnapshots project pageSize pageToken =>
    let page := listSnapshots st project pageSize pageToken
    some (.ok (.snapshots { page with items := page.items.map visible }))
  | .getIamPolicy resource => some (.ok (.policy (getIamPolicy st resource)))
  | .testIamPermissions resource permissions =>
    some (.ok (.permissions (testIamPermissions st resource permissions)))
  | .getSchema name => some ((getSchema st name).map .schema)
  | .listSchemas parent pageSize pageToken =>
    some (.ok (.schemas (listSchemas st parent pageSize pageToken)))
  | .validateSchema schema => some ((validateDefinition serde schema).map fun _ => .done)
  | .validateMessage schemaName schema message =>
    some ((validateMessage st serde schemaName schema message).map fun _ => .done)
  | .publish _ _ | .pull _ _ | .acknowledge _ _ | .modifyAckDeadline _ _ _ | .seekToTime _ _
  | .seekToSnapshot _ _ | .listPushSubscriptions | .inventory _ => none

/-! ### Each call -/

/-- **An operation does what the directory asks for**: it refuses, or it makes the change and
writes the file. -/
inductive Performs {α : Type} (env : Env) (st : State) (toAnswer : α → Answer) :
    Except BackendError (Answer × Directory) → Except BackendError α × State → Prop
  | refused (e : BackendError) : Performs env st toAnswer (.error e) (.error e, st)
  | made {v : α} {a : Answer} {st' : State} {d' : Directory} : toAnswer v = a →
      st'.directory = d' → Performs env st toAnswer (.ok (a, d')) (answer env v st')

section Calls

variable {serde : SerdeJson} {env : Env} {st : State} {s : Step}

theorem serve_of_performs {α : Type} {toAnswer : α → Answer}
    {c : Except BackendError (Answer × Directory)} {r : Except BackendError α × State}
    (hc : st.directory.change serde s.env s.call = some c) (h : Performs s.env st toAnswer c r) :
    st.directory.serve serde s = some (r.1.map toAnswer, r.2.directory) := by
  unfold Directory.serve
  rw [hc]
  cases h with
  | refused e => rfl
  | made ha hd =>
    unfold answer
    rw [← ha, ← hd]
    rcases persistLocked s.env with e | ⟨⟩ <;> rfl

theorem serve_of_read {a : Except BackendError Answer}
    (hc : st.directory.change serde s.env s.call = none)
    (h : st.directory.read serde s.call = some a) :
    st.directory.serve serde s = some (a, st.directory) := by
  unfold Directory.serve
  rw [hc, h]
  rfl

theorem checkName_of_not {name kind refusal : Text}
    (h : ¬"projects/".toList <+: name ∨ ¬kind <:+: name) :
    checkName name kind refusal = .error (.invalidArgument (refusal ++ name)) :=
  if_neg fun hboth => h.elim (fun hno => hno hboth.1) fun hno => hno hboth.2

theorem checkName_of {name kind refusal : Text}
    (h : ¬(¬"projects/".toList <+: name ∨ ¬kind <:+: name)) :
    checkName name kind refusal = .ok () := by
  obtain ⟨hbegin, hinside⟩ := not_or.mp h
  exact if_pos ⟨not_not.mp hbegin, not_not.mp hinside⟩

theorem checkNew_map {ρ ω : Type} {m : StrMap ρ} {f : ρ → ω} (name : Text) :
    checkNew (m.map fun _ v => f v) name =
      if name ∈ m then .error (.alreadyExists name) else .ok () :=
  if_congr Std.ExtTreeMap.mem_map rfl rfl

theorem checkThere_map {ρ ω : Type} {m : StrMap ρ} {f : ρ → ω} (name : Text) :
    checkThere (m.map fun _ v => f v) name =
      if name ∈ m then .ok () else .error (.notFound name) :=
  if_congr Std.ExtTreeMap.mem_map rfl rfl

theorem lookUp_map {ρ ω : Type} {m : StrMap ρ} {f : ρ → ω} (name : Text) :
    lookUp (m.map fun _ v => f v) name = (lookUp m name).map f := by
  unfold lookUp
  rw [Std.ExtTreeMap.getElem?_map]
  rcases m[name]? with - | v <;> rfl

theorem createTopic_performs (topic : TopicSpec) : ∃ c,
    st.directory.change serde env (.createTopic topic) = some c ∧
      Performs env st .topic c (createTopic env st topic) := by
  refine ⟨_, rfl, ?_⟩
  unfold createTopic
  split_ifs with hname hmem
  · rw [checkName_of_not hname]
    exact .refused _
  · rw [checkName_of hname, State.directory, checkNew_map, if_pos hmem]
    exact .refused _
  · rw [checkName_of hname, State.directory, checkNew_map, if_neg hmem]
    exact .made rfl (by rw [State.directory, map_insert_eq])

theorem updateTopic_performs (topic : TopicSpec) (mask : List Text) : ∃ c,
    st.directory.change serde env (.updateTopic topic mask) = some c ∧
      Performs env st .topic c (updateTopic env st topic mask) := by
  refine ⟨_, rfl, ?_⟩
  unfold updateTopic
  rw [State.directory, lookUp_map]
  unfold lookUp
  rcases st.topics[topic.name]? with - | entry
  · exact .refused _
  · exact .made rfl (by rw [State.directory, map_insert_eq])

theorem deleteTopic_performs (name : Text) : ∃ c,
    st.directory.change serde env (.deleteTopic name) = some c ∧
      Performs env st (fun _ => .done) c (deleteTopic env st name) := by
  refine ⟨_, rfl, ?_⟩
  unfold deleteTopic
  rw [State.directory, checkThere_map]
  split_ifs with hmem
  · exact .made rfl (by rw [State.directory, map_erase_eq])
  · exact .refused _

theorem createSubscription_performs (spec : SubscriptionSpec) : ∃ c,
    st.directory.change serde env (.createSubscription spec) = some c ∧
      Performs env st .subscription c (createSubscription env st spec) := by
  refine ⟨_, rfl, ?_⟩
  unfold createSubscription
  split_ifs with hname hmem hfilter
  · rw [checkName_of_not hname]
    exact .refused _
  · rw [checkName_of hname, State.directory, checkNew_map, if_pos hmem]
    exact .refused _
  all_goals
    rw [checkName_of hname, State.directory, checkNew_map, if_neg hmem, checkThere_map]
    unfold checkFilter
  · rw [if_pos hfilter]
    rcases htopic : st.topics[spec.topic]? with - | topic
    · rw [if_neg (by simpa using htopic)]
      exact .refused _
    · rw [if_pos (Std.ExtTreeMap.mem_iff_isSome_getElem?.mpr (by rw [htopic]; rfl))]
      exact .made rfl (by rw [State.directory, map_insert_eq]; rfl)
  · rw [if_neg hfilter]
    rcases AttributeFilter.parse spec.filter with e | filter
    · exact .refused _
    · rcases htopic : st.topics[spec.topic]? with - | topic
      · rw [if_neg (by simpa using htopic)]
        exact .refused _
      · rw [if_pos (Std.ExtTreeMap.mem_iff_isSome_getElem?.mpr (by rw [htopic]; rfl))]
        exact .made rfl (by rw [State.directory, map_insert_eq]; rfl)

theorem updateSubscription_performs (spec : SubscriptionSpec) (mask : List Text) : ∃ c,
    st.directory.change serde env (.updateSubscription spec mask) = some c ∧
      Performs env st .subscription c (updateSubscription env st spec mask) := by
  refine ⟨_, rfl, ?_⟩
  unfold updateSubscription
  rw [State.directory, lookUp_map]
  unfold lookUp
  rcases st.subscriptions[spec.name]? with - | entry
  · exact .refused _
  · dsimp only
    by_cases hfilter : "filter".toList ∈ mask ∧ spec.filter ≠ [] ∧ spec.filter ≠ entry.spec.filter
    · have hcheck : checkSameFilter entry.spec spec mask = .error _ := if_pos hfilter
      rw [if_pos hfilter]
      change Performs env st _ (checkSameFilter entry.spec spec mask >>= fun _ => _) _
      rw [hcheck]
      exact .refused _
    · have hcheck : checkSameFilter entry.spec spec mask = .ok () := if_neg hfilter
      rw [if_neg hfilter]
      change Performs env st _ (checkSameFilter entry.spec spec mask >>= fun _ => _) _
      rw [hcheck]
      exact .made rfl (by rw [State.directory, map_insert_eq]; rfl)

theorem deleteSubscription_performs (name : Text) : ∃ c,
    st.directory.change serde env (.deleteSubscription name) = some c ∧
      Performs env st (fun _ => .done) c (deleteSubscription env st name) := by
  refine ⟨_, rfl, ?_⟩
  unfold deleteSubscription
  rw [State.directory, checkThere_map]
  split_ifs with hmem
  · exact .made rfl (by rw [State.directory, map_erase_eq])
  · exact .refused _

theorem modifyPushConfig_performs (name : Text) (endpoint : Option Text)
    (attributes : StrMap Text) : ∃ c,
    st.directory.change serde env (.modifyPushConfig name endpoint attributes) = some c ∧
      Performs env st (fun _ => .done) c (modifyPushConfig env st name endpoint attributes) := by
  refine ⟨_, rfl, ?_⟩
  unfold modifyPushConfig
  rw [State.directory, lookUp_map]
  unfold lookUp
  rcases st.subscriptions[name]? with - | entry
  · exact .refused _
  · exact .made rfl (by rw [State.directory, map_insert_eq])

theorem createSnapshot_performs (name subscription : Text) (labels : StrMap Text) : ∃ c,
    st.directory.change serde env (.createSnapshot name subscription labels) = some c ∧
      Performs env st (fun s => .snapshot (visible s)) c
        (createSnapshot env st name subscription labels) := by
  refine ⟨_, rfl, ?_⟩
  unfold createSnapshot
  split_ifs with hname hmem
  · rw [checkName_of_not hname]
    exact .refused _
  · rw [checkName_of hname, State.directory, checkNew_map, if_pos hmem]
    exact .refused _
  · rw [checkName_of hname, State.directory, checkNew_map, if_neg hmem, lookUp_map]
    unfold lookUp
    rcases st.subscriptions[subscription]? with - | sub
    · exact .refused _
    · dsimp only
      exact .made rfl (by rw [State.directory, map_insert_eq]; rfl)

theorem updateSnapshot_performs (snapshot : SnapshotSpec) (mask : List Text) : ∃ c,
    st.directory.change serde env (.updateSnapshot snapshot mask) = some c ∧
      Performs env st (fun s => .snapshot (visible s)) c (updateSnapshot env st snapshot mask) := by
  refine ⟨_, rfl, ?_⟩
  unfold updateSnapshot
  rw [State.directory, lookUp_map]
  unfold lookUp
  rcases st.snapshots[snapshot.name]? with - | entry
  · exact .refused _
  · by_cases hmask : mask = [] ∨ "*".toList ∈ mask ∨ "labels".toList ∈ mask
    · simp only [if_pos hmask]
      exact .made rfl (by rw [State.directory, map_insert_eq]; rfl)
    · simp only [if_neg hmask]
      exact .made rfl (by rw [State.directory, map_insert_eq])

theorem deleteSnapshot_performs (name : Text) : ∃ c,
    st.directory.change serde env (.deleteSnapshot name) = some c ∧
      Performs env st (fun _ => .done) c (deleteSnapshot env st name) := by
  refine ⟨_, rfl, ?_⟩
  unfold deleteSnapshot
  rw [State.directory, checkThere_map]
  split_ifs with hmem
  · exact .made rfl (by rw [State.directory, map_erase_eq])
  · exact .refused _

theorem setIamPolicy_performs (resource : Text) (policy : IamPolicy) : ∃ c,
    st.directory.change serde env (.setIamPolicy resource policy) = some c ∧
      Performs env st .policy c (setIamPolicy env st resource policy) :=
  ⟨_, rfl, .made rfl rfl⟩

theorem createSchema_performs (schema : SchemaSpec) : ∃ c,
    st.directory.change serde env (.createSchema schema) = some c ∧
      Performs env st .schema c (createSchema serde env st schema) := by
  refine ⟨_, rfl, ?_⟩
  unfold createSchema
  by_cases hname : ¬"projects/".toList <+: schema.name ∨ ¬"/schemas/".toList <:+: schema.name
  · rw [if_pos hname, checkName_of_not hname]
    exact .refused _
  · rw [if_neg hname, checkName_of hname]
    rcases validateDefinition serde schema with e | ⟨⟩
    · exact .refused _
    · by_cases hmem : schema.name ∈ st.schemas
      · have hnew : checkNew st.directory.schemas schema.name = .error _ := if_pos hmem
        rw [hnew, if_pos hmem]
        exact .refused _
      · have hnew : checkNew st.directory.schemas schema.name = .ok () := if_neg hmem
        rw [hnew, if_neg hmem]
        exact .made rfl rfl

theorem deleteSchema_performs (name : Text) : ∃ c,
    st.directory.change serde env (.deleteSchema name) = some c ∧
      Performs env st (fun _ => .done) c (deleteSchema env st name) := by
  refine ⟨_, rfl, ?_⟩
  unfold deleteSchema checkThere
  rw [State.directory]
  dsimp only
  split_ifs with hmem
  · exact .made rfl rfl
  · exact .refused _

/-- A listing of what looks the same under the same names. -/
theorem listOfProject_map {α : Type} {name : α → Text} {f : α → α} (hf : ∀ x, name (f x) = name x)
    (items : List α) (project : Text) (pageSize : Int32) (pageToken : Text) :
    listOfProject name (items.map f) project pageSize pageToken =
      { listOfProject name items project pageSize pageToken with
        items := (listOfProject name items project pageSize pageToken).items.map f } := by
  have hfilter : (items.map f).filter (fun x => decide (belongsToProject (name x) project)) =
      (items.filter fun x => decide (belongsToProject (name x) project)).map f := by
    rw [List.filter_map]
    simp only [Function.comp_def, hf]
  have hsort : ∀ l : List α, sortByName name (l.map f) = (sortByName name l).map f := fun l =>
    (List.map_mergeSort fun a _ b _ => by rw [hf, hf]).symm
  unfold listOfProject
  rw [hfilter, hsort]
  unfold paginate
  dsimp only
  rw [List.length_map, ← List.map_take, ← List.map_drop]
  split_ifs <;> rfl

theorem namesOfTopic_directory (topic : Text) :
    namesOfTopic st.directory.subscriptions topic = topicSubscriptions st topic := by
  rw [namesOfTopic, topicSubscriptions, State.directory, values_map, List.filter_map, List.map_map]
  rfl

theorem getSchema_eq (st : State) (name : Text) : getSchema st name = lookUp st.schemas name := by
  unfold lookUp getSchema
  rcases st.schemas[name]? with - | schema <;> rfl

theorem validateMessage_eq (schemaName : Option Text) (schema : Option SchemaSpec)
    (message : Bytes) :
    validateMessage st serde schemaName schema message =
      (resolveSchema st.schemas schemaName schema >>= fun resolved =>
        validatePayload serde resolved "JSON" message) := by
  unfold validateMessage
  rcases schema with - | schema
  · rcases schemaName with - | name
    · rfl
    · change (getSchema st name >>= fun resolved => _) = _
      rw [getSchema_eq]
      rfl
  · rfl

/-- **Each call on resources is answered as the directory answers it**, and leaves the directory
that it makes. -/
theorem serve_directory (serde : SerdeJson) (st : State) (s : Step) :
    st.directory.serve serde s =
      (controlAnswer serde st s).map fun answer => (answer, (exec serde st s).directory) := by
  obtain ⟨call, env⟩ := s
  have hperforms : ∀ {α : Type} {toAnswer : α → Answer} {r : Except BackendError α × State},
      (∃ c, st.directory.change serde env call = some c ∧ Performs env st toAnswer c r) →
      st.directory.serve serde ⟨call, env⟩ = some (r.1.map toAnswer, r.2.directory) :=
    fun h => h.elim fun c hc => @serve_of_performs serde st ⟨call, env⟩ _ _ _ _ hc.1 hc.2
  have hread : ∀ {a : Except BackendError Answer}, st.directory.change serde env call = none →
      st.directory.read serde call = some a →
      st.directory.serve serde ⟨call, env⟩ = some (a, st.directory) :=
    fun hc h => @serve_of_read serde st ⟨call, env⟩ _ hc h
  unfold controlAnswer exec
  cases call with
  | createTopic topic => exact hperforms (createTopic_performs topic)
  | updateTopic topic mask => exact hperforms (updateTopic_performs topic mask)
  | deleteTopic name => exact hperforms (deleteTopic_performs name)
  | createSubscription spec => exact hperforms (createSubscription_performs spec)
  | updateSubscription spec mask => exact hperforms (updateSubscription_performs spec mask)
  | deleteSubscription name => exact hperforms (deleteSubscription_performs name)
  | modifyPushConfig name endpoint attributes =>
    exact hperforms (modifyPushConfig_performs name endpoint attributes)
  | createSnapshot name subscription labels =>
    exact hperforms (createSnapshot_performs name subscription labels)
  | updateSnapshot snapshot mask => exact hperforms (updateSnapshot_performs snapshot mask)
  | deleteSnapshot name => exact hperforms (deleteSnapshot_performs name)
  | setIamPolicy resource policy => exact hperforms (setIamPolicy_performs resource policy)
  | createSchema schema => exact hperforms (createSchema_performs schema)
  | deleteSchema name => exact hperforms (deleteSchema_performs name)
  | getTopic name =>
    refine hread rfl (congrArg some ?_)
    rw [State.directory, lookUp_map]
    unfold lookUp getTopic
    rcases st.topics[name]? with - | topic <;> rfl
  | listTopics project pageSize pageToken =>
    refine hread rfl ?_
    rw [Directory.read, State.directory, values_map]
    rfl
  | listTopicSubscriptions topic pageSize pageToken =>
    refine hread rfl (congrArg some ?_)
    rw [namesOfTopic_directory, State.directory, checkThere_map]
    unfold listTopicSubscriptions
    split_ifs with hmem
    · rfl
    · rfl
  | getSubscription name =>
    refine hread rfl (congrArg some ?_)
    rw [State.directory, lookUp_map]
    unfold lookUp getSubscription
    rcases st.subscriptions[name]? with - | sub <;> rfl
  | listSubscriptions project pageSize pageToken =>
    refine hread rfl ?_
    rw [Directory.read, State.directory, values_map]
    rfl
  | getSnapshot name =>
    refine hread rfl (congrArg some ?_)
    rw [State.directory, lookUp_map]
    unfold lookUp getSnapshot
    rcases st.snapshots[name]? with - | snapshot <;> rfl
  | listSnapshots project pageSize pageToken =>
    refine hread rfl ?_
    rw [Directory.read, State.directory, values_map, @listOfProject_map _ _ visible fun _ => rfl]
    rfl
  | getSchema name =>
    refine hread rfl (congrArg some ?_)
    rw [getSchema_eq]
    rfl
  | validateSchema schema => exact hread rfl rfl
  | validateMessage schemaName schema message =>
    refine hread rfl (congrArg some ?_)
    rw [validateMessage_eq]
    rfl
  | listSchemas _ _ _ => exact hread rfl rfl
  | getIamPolicy _ => exact hread rfl rfl
  | testIamPermissions _ _ => exact hread rfl rfl
  | publish _ _ | pull _ _ | acknowledge _ _ | modifyAckDeadline _ _ _ | seekToTime _ _
  | seekToSnapshot _ _ | listPushSubscriptions | inventory _ => rfl

end Calls

/-! ### Messages -/

/-- The call is one on resources. -/
def isControl : BackendCall → Bool
  | .publish _ _ | .pull _ _ | .acknowledge _ _ | .modifyAckDeadline _ _ _ | .seekToTime _ _
  | .seekToSnapshot _ _ | .listPushSubscriptions | .inventory _ => false
  | _ => true

section Messages

variable {serde : SerdeJson} {st : State} {s : Step}

theorem isSome_controlAnswer : (controlAnswer serde st s).isSome = isControl s.call := by
  unfold controlAnswer
  cases s.call <;> rfl

/-- Two stores with the same resources. -/
theorem directory_congr {st' : State}
    (htopics : ∀ name : Text, st'.topics[name]?.map (·.spec) = st.topics[name]?.map (·.spec))
    (hsubs : ∀ name, specAt st'.subscriptions name = specAt st.subscriptions name)
    (hsnapshots : st'.snapshots = st.snapshots) (hschemas : st'.schemas = st.schemas)
    (hiam : st'.iam = st.iam) : st'.directory = st.directory := by
  have htopics' : (st'.topics.map fun _ topic => topic.spec) =
      st.topics.map fun _ topic => topic.spec := by
    ext1 name
    rw [Std.ExtTreeMap.getElem?_map, Std.ExtTreeMap.getElem?_map]
    exact htopics name
  have hsubs' : (st'.subscriptions.map fun _ sub => sub.spec) =
      st.subscriptions.map fun _ sub => sub.spec := by
    ext1 name
    rw [Std.ExtTreeMap.getElem?_map, Std.ExtTreeMap.getElem?_map]
    exact hsubs name
  rw [State.directory, State.directory, htopics', hsubs', hsnapshots, hschemas, hiam]

/-- No message changes the specification of a topic. -/
theorem topicSpec_of_exec (hs : isControl s.call = false) (name : Text) :
    (exec serde st s).topics[name]?.map (·.spec) = st.topics[name]?.map (·.spec) := by
  have hstep := topicStep_of_exec serde name st s
  generalize (exec serde st s).topics[name]? = topic' at hstep ⊢
  generalize st.topics[name]? = topic at hstep ⊢
  cases hstep with
  | same => rfl
  | create hcall _ | delete hcall | respec hcall _ =>
    rw [hcall] at hs
    cases hs
  | publish _ _ => exact congrArg some (publish_spec s.env _ _)
  | pull _ hmore =>
    cases hmore with
    | absent => rfl
    | more topic new => rfl

/-- No message changes a policy. -/
theorem iam_of_exec (hs : isControl s.call = false) : (exec serde st s).iam = st.iam := by
  unfold exec
  cases hcall : s.call with
  | publish topic messages =>
    dsimp only
    unfold publish
    split
    · rfl
    split
    · rfl
    · rw [answer_snd]
  | pull name maxMessages =>
    dsimp only
    unfold pull
    split
    · rfl
    split
    · rfl
    split
    · simp only [answer_snd]
    · rfl
  | acknowledge name ackIds =>
    dsimp only
    unfold acknowledge
    split
    · rfl
    dsimp only
    split
    · rfl
    · rw [answer_snd]
  | modifyAckDeadline name ackIds extension =>
    dsimp only
    unfold modifyAckDeadline
    split
    · rfl
    split
    · rfl
    · rw [answer_snd]
  | seekToTime name time =>
    dsimp only
    unfold seekToTime
    split
    · rfl
    split
    · rfl
    · rw [answer_snd]
  | seekToSnapshot name snapshot =>
    dsimp only
    unfold seekToSnapshot
    split
    · rfl
    split
    · rfl
    split
    · rfl
    · rw [answer_snd]
  | listPushSubscriptions => rfl
  | inventory _ => rfl
  | _ => simp [hcall, isControl] at hs

variable (serde) in
/-- What a step is to the directory: a pull that panics drops its subscription, and nothing else
that is done with messages concerns it. -/
def control (st : State) (s : Step) : Option Step :=
  if isControl s.call then some s
  else
    match s.call with
    | .pull name maxMessages =>
      match (pull s.env st name maxMessages).1 with
      | .panicked => some ⟨.deleteSubscription name, s.env⟩
      | .returned _ => none
    | _ => none

/-- A pull keeps the specifications, or panics and drops its subscription. -/
theorem subscriptions_of_pull {name : Text} {maxMessages : UInt32} :
    (∃ result, (pull s.env st name maxMessages).1 = .returned result ∧
      ∀ n, specAt (pull s.env st name maxMessages).2.subscriptions n = specAt st.subscriptions n) ∨
    ((pull s.env st name maxMessages).1 = .panicked ∧ name ∈ st.subscriptions ∧
      (pull s.env st name maxMessages).2.subscriptions = st.subscriptions.erase name) := by
  unfold pull
  split
  · exact Or.inl ⟨_, rfl, fun _ => rfl⟩
  rename_i sub hsub
  split
  · exact Or.inl ⟨_, rfl, fun n => specAt_insert n hsub rfl⟩
  split
  · rename_i p hp
    refine Or.inl ⟨_, rfl, fun n => ?_⟩
    simp only [answer_snd]
    refine specAt_insert n hsub ?_
    exact (spec_of_turns (turns_of_finished hp)).trans (sweep_frame _ _).1
  · refine Or.inr ⟨rfl, ?_, rfl⟩
    exact Std.ExtTreeMap.mem_iff_isSome_getElem?.mpr (by rw [hsub]; rfl)

/-- **A call on resources does to the directory what the directory makes of it.** -/
theorem step_directory (hs : isControl s.call) :
    st.directory.step serde s = (exec serde st s).directory := by
  have hanswer : (controlAnswer serde st s).isSome := isSome_controlAnswer.trans hs
  obtain ⟨a, ha⟩ := Option.isSome_iff_exists.mp hanswer
  rw [Directory.step, serve_directory, ha]
  rfl

/-- **What a step does to the directory.** -/
theorem directory_exec (serde : SerdeJson) (st : State) (s : Step) :
    (exec serde st s).directory =
      ((control st s).map (st.directory.step serde)).getD st.directory := by
  by_cases hs : isControl s.call
  · rw [control, if_pos hs, Option.map_some, Option.getD_some, step_directory hs]
  have hfalse : isControl s.call = false := Bool.eq_false_iff.mpr hs
  have htopics : ∀ name : Text, _ := @topicSpec_of_exec serde st s hfalse
  have hiam : (exec serde st s).iam = st.iam := iam_of_exec hfalse
  rw [control, if_neg hs]
  obtain ⟨call, env⟩ := s
  cases call with
  | pull name maxMessages =>
    obtain ⟨hsnapshots, hschemas⟩ := pull_frame env st name maxMessages
    rcases @subscriptions_of_pull st ⟨.pull name maxMessages, env⟩ name maxMessages with
      ⟨result, hresult, hspecs⟩ | ⟨hpanic, hmem, hsubs⟩
    · simp only [hresult]
      exact directory_congr htopics hspecs hsnapshots hschemas hiam
    · -- the subscription is gone, as if it had been deleted
      have hdeleted : exec serde st ⟨.deleteSubscription name, env⟩ =
          { st with subscriptions := st.subscriptions.erase name } := by
        change (deleteSubscription env st name).2 = _
        rw [deleteSubscription, if_neg (not_not.mpr hmem), answer_snd]
      simp only [hpanic, Option.map_some, Option.getD_some]
      rw [step_directory (s := ⟨.deleteSubscription name, env⟩) rfl, hdeleted]
      exact directory_congr htopics (fun n => congrArg (specAt · n) hsubs) hsnapshots hschemas hiam
  | publish topic messages =>
    obtain ⟨hsubs, hsnapshots, hschemas⟩ :=
      @publish_frame serde env st topic messages
    exact directory_congr htopics (fun n => congrArg (specAt · n) hsubs) hsnapshots hschemas hiam
  | acknowledge name ackIds =>
    obtain ⟨-, hsnapshots, hschemas⟩ := acknowledge_frame env st name ackIds
    exact directory_congr htopics (fun n => specAt_acknowledge n st ⟨_, env⟩) hsnapshots hschemas
      hiam
  | modifyAckDeadline name ackIds extension =>
    obtain ⟨-, hsnapshots, hschemas⟩ := modifyAckDeadline_frame env st name ackIds extension
    exact directory_congr htopics (fun n => specAt_modifyAckDeadline n st ⟨_, env⟩) hsnapshots
      hschemas hiam
  | seekToTime name time =>
    obtain ⟨-, hsnapshots, hschemas⟩ := seekToTime_frame env st name time
    exact directory_congr htopics (fun n => specAt_seekToTime n st ⟨_, env⟩) hsnapshots hschemas
      hiam
  | seekToSnapshot name snapshot =>
    obtain ⟨-, hsnapshots, hschemas⟩ := seekToSnapshot_frame env st name snapshot
    exact directory_congr htopics (fun n => specAt_seekToSnapshot n st ⟨_, env⟩) hsnapshots hschemas
      hiam
  | listPushSubscriptions | inventory _ => rfl
  | _ => exact absurd rfl hs

end Messages

/-! ### Runs -/

/-- **What a run is to the directory**: the calls on resources, and the subscriptions that pulls
have dropped. -/
def controls (serde : SerdeJson) : State → List Step → List Step
  | _, [] => []
  | st, s :: steps => (control st s).toList ++ controls serde (exec serde st s) steps

section Runs

variable {serde : SerdeJson} {st : State} {steps : List Step}

theorem directory_run :
    (Machine.run (exec serde) st steps).directory =
      Machine.run (Directory.step serde) st.directory (controls serde st steps) := by
  induction steps generalizing st with
  | nil => rfl
  | cons s steps ih =>
    rw [Machine.run_cons, ih, controls, Machine.run_append, directory_exec]
    rcases control st s with - | c <;> rfl

/-- Where no pull panics, a run is its calls on resources. -/
theorem controls_eq_filter
    (h : ∀ past s, past ++ [s] <+: steps →
      outcome serde (Machine.run (exec serde) st past) s ≠ some .panicked) :
    controls serde st steps = steps.filter fun s => isControl s.call := by
  induction steps generalizing st with
  | nil => rfl
  | cons s steps ih =>
    have hlater := @ih (exec serde st s) fun past t hpast =>
      h (s :: past) t (List.cons_prefix_cons.mpr ⟨rfl, hpast⟩)
    have hnow : outcome serde st s ≠ some .panicked := h [] s ⟨steps, rfl⟩
    rw [controls, hlater, List.filter_cons, control]
    by_cases hs : isControl s.call
    · rw [if_pos hs, if_pos hs]
      rfl
    · rw [if_neg hs, if_neg hs]
      obtain ⟨call, env⟩ := s
      cases call with
      | pull name maxMessages =>
        unfold outcome at hnow
        dsimp only at hnow ⊢
        rcases hpull : (pull env st name maxMessages).1 with result | -
        · rfl
        · rw [hpull] at hnow
          exact absurd rfl hnow
      | _ => rfl

end Runs

/-- **The resources are a directory**, whatever happens to messages. In every run the resources
of the store are those of the directory after the calls on resources, and every call on
resources is answered as this directory answers it. What is done with messages does not come
into it, except that a pull that panics drops its subscription. -/
theorem control_plane (serde : SerdeJson) (steps : List Step) :
    (stateAfter serde steps).directory =
        Machine.run (Directory.step serde) {} (controls serde {} steps) ∧
      (∀ s, controlAnswer serde (stateAfter serde steps) s =
        ((Machine.run (Directory.step serde) {} (controls serde {} steps)).serve serde s).map
          Prod.fst) ∧
      ((∀ past s, past ++ [s] <+: steps →
          outcome serde (stateAfter serde past) s ≠ some .panicked) →
        controls serde {} steps = steps.filter fun s => isControl s.call) := by
  have hdirectory : (stateAfter serde steps).directory =
      Machine.run (Directory.step serde) {} (controls serde {} steps) := directory_run
  refine ⟨hdirectory, fun s => ?_, fun h => controls_eq_filter h⟩
  rw [← hdirectory, serve_directory, Option.map_map]
  exact (Option.map_id_apply).symm

end RelayPubsub.Memory
