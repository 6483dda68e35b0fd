import RelayPubsub.Grpc.Tenant
import RelayPubsub.Lib.Utf8
import RelayPubsub.LogBuffer
import RelayPubsub.Memory.Inventory
import RelayPubsub.Memory.Untouched
import RelayPubsub.Rest.Dispatch

/-!
# The console

The requests under `/admin/v1` of `src/rest.rs`: what the console of the gateway shows
and does. Each is authorized for one string – the project it lists, or the resource it
acts on – and nothing it does goes further. So the console keeps within the projects of
its callers, in the resources it lists and in those it changes
(`RelayPubsub.Rest.console_keeps_within`), with two exceptions, both due to subscriptions
with a topic of another project: a subscription is listed with the names of its topics,
and a pull may leave the copy of a dead letter there.
-/

namespace RelayPubsub.Rest

open Lib Memory

/-! ### Requests -/

/-- **A request of the console**, with the fields that may be absent. -/
inductive AdminRequest where
  | topics (project : Option Text)
  | subscriptions (project : Option Text)
  | inventory (project : Option Text)
  | publish (topic data : Text) (attributes : StrMap Text) (orderingKey messageId : Text)
  | pull (subscription : Text) (maxMessages : Option UInt32)
  | ack (subscription : Text) (ackIds : List Text)
  | pushConfig (subscription : Text) (pushEndpoint : Option Text) (pushAttributes : StrMap Text)
  | logs (after limit : Option ℕ)

/-- `query.project.as_deref().unwrap_or("projects/demo")` -/
def adminProject (project : Option Text) : Text := project.getD "projects/demo"

def defaultPull : UInt32 := 10

namespace AdminRequest

/-- What the request is authorized for. -/
def resource : AdminRequest → Text
  | .topics project | .subscriptions project | .inventory project => adminProject project
  | .publish topic _ _ _ _ => topic
  | .pull subscription _ | .ack subscription _ | .pushConfig subscription _ _ => subscription
  | .logs _ _ => "projects/demo"

/-- The call of the backend it makes. -/
def call : AdminRequest → Option BackendCall
  | .topics project => some (.listTopics (adminProject project) 1000 "")
  | .subscriptions project => some (.listSubscriptions (adminProject project) 1000 "")
  | .inventory project => some (.inventory (adminProject project))
  | .publish topic data attributes orderingKey messageId =>
    some (.publish topic [{ data := asBytes data, attributes, orderingKey, messageId }])
  | .pull subscription maxMessages => some (.pull subscription (maxMessages.getD defaultPull))
  | .ack subscription ackIds => some (.acknowledge subscription ackIds)
  | .pushConfig subscription pushEndpoint pushAttributes =>
    -- an endpoint of blanks clears it
    some (.modifyPushConfig subscription ((pushEndpoint.map trim).filter (· ≠ []))
      pushAttributes)
  | .logs _ _ => none

end AdminRequest

/-- What the console shows. -/
inductive AdminAnswer where
  | topics (items : List TopicSpec)
  | subscriptions (items : List SubscriptionSpec)
  | inventory (report : InventoryReport)
  | published (messageIds : List Text)
  | pulled (deliveries : List Delivery)
  | done
  | logs (answer : LogsAnswer)

/-- **The answer to an accepted request**; none where the call panics. `lossy` is
`String::from_utf8_lossy`. -/
def adminAnswer (serde : SerdeJson) (lossy : Bytes → Text) (logs : LogBuffer) (env : Env)
    (st : State) : AdminRequest → Option (Except BackendError AdminAnswer)
  | .topics project => some (.ok (.topics (listTopics st (adminProject project) 1000 "").items))
  | .subscriptions project =>
    some (.ok (.subscriptions (listSubscriptions st (adminProject project) 1000 "").items))
  | .inventory project => some (.ok (.inventory (inventory lossy st (adminProject project))))
  | .publish topic data attributes orderingKey messageId =>
    some ((publish serde env st topic
      [{ data := asBytes data, attributes, orderingKey, messageId }]).1.map .published)
  | .pull subscription maxMessages =>
    match (pull env st subscription (maxMessages.getD defaultPull)).1 with
    | .returned result => some (result.map .pulled)
    | .panicked => none
  | .ack subscription ackIds =>
    some ((acknowledge env st subscription ackIds).1.map fun _ => .done)
  | .pushConfig subscription pushEndpoint pushAttributes =>
    some ((modifyPushConfig env st subscription ((pushEndpoint.map trim).filter (· ≠ []))
      pushAttributes).1.map fun _ => .done)
  | .logs after limit => some (.ok (.logs (adminLogs logs after limit)))

/-- The names of the resources that an answer lists. -/
def AdminAnswer.names : AdminAnswer → List Text
  | .topics items => items.map (·.name)
  | .subscriptions items => items.map (·.name)
  | .inventory report => report.topics.map (·.name) ++ report.subscriptions.map (·.name)
  | _ => []

/-- The topics that an answer shows beside a subscription: its topic, and the one for its
dead letters. -/
def AdminAnswer.references : AdminAnswer → List (Text × Text)
  | .subscriptions items => items.flatMap fun spec =>
    (spec.topic :: (spec.deadLetter.map (·.topic)).toList).map fun topic => (spec.name, topic)
  | .inventory report => report.subscriptions.flatMap fun sub =>
    (sub.topic :: sub.deadLetterTopic.toList).map fun topic => (sub.name, topic)
  | _ => []

/-- The subscription is one that the answer lists. -/
theorem AdminAnswer.mem_names_of_reference {answer : AdminAnswer} {subscription topic : Text}
    (h : (subscription, topic) ∈ answer.references) : subscription ∈ answer.names := by
  cases answer with
  | subscriptions items =>
    obtain ⟨spec, hspec, hmem⟩ := List.mem_flatMap.mp h
    obtain ⟨t, -, heq⟩ := List.mem_map.mp hmem
    exact List.mem_map.mpr ⟨spec, hspec, congrArg Prod.fst heq⟩
  | inventory report =>
    obtain ⟨sub, hsub, hmem⟩ := List.mem_flatMap.mp h
    obtain ⟨t, -, heq⟩ := List.mem_map.mp hmem
    exact List.mem_append_right _ (List.mem_map.mpr ⟨sub, hsub, congrArg Prod.fst heq⟩)
  | _ => cases h

/-! ### Runs -/

/-- **What happens to the store** of a gateway with an authenticator: a request of the
console, whoever sends it – what `authenticate_bearer` makes of its header is given –, or a
call from elsewhere. -/
inductive ConsoleStep where
  | admin (caller : Except Text AuthContext) (request : AdminRequest) (env : Env)
  | other (s : Step)

/-- The call it makes, if it is let through and makes one. -/
def ConsoleStep.call : ConsoleStep → Option Step
  | .admin caller request env =>
    match authorize (some caller) request.resource with
    | .ok () => request.call.map fun call => ⟨call, env⟩
    | .error _ => none
  | .other s => some s

/-- The store after some steps. -/
def consoleRun (serde : SerdeJson) (st : State) (steps : List ConsoleStep) : State :=
  Machine.run (exec serde) st (steps.filterMap ConsoleStep.call)

section Console

variable {serde : SerdeJson} {lossy : Bytes → Text} {logs : LogBuffer} {env : Env} {st : State}
  {request : AdminRequest} {ctx : AuthContext} {name : Text}

/-- A request acts on what it is authorized for, or on nothing. -/
theorem target_of_admin {call : BackendCall} (h : request.call = some call)
    (htarget : call.target = some name) : name = request.resource := by
  cases request with
  | logs _ _ => cases h
  | topics _ | subscriptions _ | inventory _ =>
    obtain rfl := Option.some.inj h
    cases htarget
  | publish _ _ _ _ _ | pull _ _ | ack _ _ | pushConfig _ _ _ =>
    obtain rfl := Option.some.inj h
    exact (Option.some.inj htarget).symm

theorem allowed_of_authorize {resource : Text} (h : authorize (some (.ok ctx)) resource = .ok ()) :
    Allowed ctx resource := by
  unfold authorize at h
  unfold Allowed
  dsimp only at h
  rcases hauth : authorizeResource ctx resource with message | u
  · rw [hauth] at h
    cases h
  · rfl

/-- An answer made of something without names lists none. -/
theorem names_of_map {α : Type} {f : α → AdminAnswer} (hf : ∀ a, (f a).names = [])
    {e : Except BackendError α} {answer : AdminAnswer} (h : e.map f = .ok answer) :
    answer.names = [] := by
  rcases e with e | a
  · cases h
  · obtain rfl := Except.ok.inj h
    exact hf a

/-- **What an answer lists belongs to what the request is authorized for.** -/
theorem belongs_of_listed {answer : AdminAnswer}
    (h : adminAnswer serde lossy logs env st request = some (.ok answer))
    (hname : name ∈ answer.names) : belongsToProject name request.resource := by
  cases request with
  | topics project =>
    obtain rfl := Except.ok.inj (Option.some.inj h)
    obtain ⟨spec, hspec, rfl⟩ := List.mem_map.mp hname
    exact belongs_of_mem_listOfProject hspec
  | subscriptions project =>
    obtain rfl := Except.ok.inj (Option.some.inj h)
    obtain ⟨spec, hspec, rfl⟩ := List.mem_map.mp hname
    exact belongs_of_mem_listOfProject hspec
  | inventory project =>
    obtain rfl := Except.ok.inj (Option.some.inj h)
    rcases List.mem_append.mp hname with hname | hname
    · obtain ⟨report, hreport, rfl⟩ := List.mem_map.mp hname
      obtain ⟨topicName, topic, -, hbelongs, rfl⟩ := mem_inventory_topics.mp hreport
      exact hbelongs
    · obtain ⟨report, hreport, rfl⟩ := List.mem_map.mp hname
      obtain ⟨subName, sub, -, hbelongs, rfl⟩ := mem_inventorySubscriptions.mp hreport
      exact hbelongs
  | publish topic data attributes orderingKey messageId =>
    rw [names_of_map (fun _ => rfl) (Option.some.inj h)] at hname
    cases hname
  | pull subscription maxMessages =>
    unfold adminAnswer at h
    dsimp only at h
    split at h
    · rw [names_of_map (fun _ => rfl) (Option.some.inj h)] at hname
      cases hname
    · cases h
  | ack subscription ackIds =>
    rw [names_of_map (fun _ => rfl) (Option.some.inj h)] at hname
    cases hname
  | pushConfig subscription pushEndpoint pushAttributes =>
    rw [names_of_map (fun _ => rfl) (Option.some.inj h)] at hname
    cases hname
  | logs after limit =>
    obtain rfl := Except.ok.inj (Option.some.inj h)
    cases hname

/-- A step that makes a call on the name is one of a caller who is allowed on it, or one
from elsewhere. -/
theorem target_of_consoleStep {step : ConsoleStep} {s : Step} (h : step.call = some s)
    (htarget : s.call.target = some name) :
    (∃ caller request env, step = .admin (.ok caller) request env ∧ Allowed caller name) ∨
      step = .other s := by
  cases step with
  | other t => exact Or.inr (congrArg _ (Option.some.inj h))
  | admin caller request env =>
    left
    unfold ConsoleStep.call at h
    dsimp only at h
    split at h
    · rename_i hauth
      obtain ⟨call, hcall, rfl⟩ := Option.map_eq_some_iff.mp h
      rcases caller with message | ctx
      · cases hauth
      · refine ⟨ctx, request, env, rfl, ?_⟩
        rw [target_of_admin hcall htarget]
        exact allowed_of_authorize hauth
    · cases h

end Console

/-- **The console keeps within the projects of its callers**, in every run: where none of
them is allowed on a name, and calls from elsewhere act on other names, whatever is stored
under the name is as it was, but for dead letters that other subscriptions have sent to
it; no answer lists the name; and a topic is shown beside a subscription only to those who
are allowed on the subscription. -/
theorem console_keeps_within (serde : SerdeJson) (lossy : Bytes → Text) (st : State)
    (steps : List ConsoleStep) (name : Text)
    (hcallers : ∀ ctx request env, .admin (.ok ctx) request env ∈ steps → ¬Allowed ctx name)
    (hothers : ∀ s, .other s ∈ steps → s.call.target ≠ some name) :
    Untouched (DeadLetterOf serde st (steps.filterMap ConsoleStep.call) name) name st
        (consoleRun serde st steps) ∧
      ∀ past ctx request env logs answer, past ++ [.admin (.ok ctx) request env] <+: steps →
        authorize (some (.ok ctx)) request.resource = .ok () →
        adminAnswer serde lossy logs env (consoleRun serde st past) request = some (.ok answer) →
        name ∉ answer.names ∧ ∀ subscription topic, (subscription, topic) ∈ answer.references →
          Allowed ctx subscription := by
  refine ⟨untouched_run fun s hs htarget => ?_, ?_⟩
  · obtain ⟨step, hstep, hcall⟩ := List.mem_filterMap.mp hs
    rcases target_of_consoleStep hcall htarget with ⟨ctx, request, env, rfl, hallowed⟩ | rfl
    · exact hcallers ctx request env hstep hallowed
    · exact hothers s hstep htarget
  · intro past ctx request env logs answer hpre hauth hanswer
    have hlisted : ∀ n ∈ answer.names, Allowed ctx n := fun n hn =>
      Grpc.allowed_of_belongs (allowed_of_authorize hauth) (belongs_of_listed hanswer hn)
    refine ⟨fun hname => ?_, fun subscription topic hmem => ?_⟩
    · exact hcallers ctx request env (hpre.subset (by simp)) (hlisted name hname)
    · exact hlisted subscription (AdminAnswer.mem_names_of_reference hmem)

/-- A store with a topic of project `b`, and a subscription of project `a` to it. -/
def storeOfB : State :=
  stateAfter noJson
    [.numbered (0, .createTopic { name := "projects/b/topics/t" }) 0,
      .numbered (0, .createSubscription
        { name := "projects/a/subscriptions/s", topic := "projects/b/topics/t",
          ackDeadlineSeconds := 10 }) 1]

/-- A caller of project `a` tries to publish to the topic, and asks for its own
subscriptions. -/
def consoleOfA : List ConsoleStep :=
  [.admin (.ok Grpc.sampleCaller) (.publish "projects/b/topics/t" "x" ∅ [] [])
      (Step.numbered (0, .inventory []) 2).env,
    .admin (.ok Grpc.sampleCaller) (.subscriptions (some "projects/a"))
      (Step.numbered (0, .inventory []) 3).env]

/-- The topic is as it was, and is not listed. -/
theorem consoleOfA_keeps_within :
    Untouched (DeadLetterOf noJson storeOfB (consoleOfA.filterMap ConsoleStep.call)
      "projects/b/topics/t") "projects/b/topics/t" storeOfB
      (consoleRun noJson storeOfB consoleOfA) ∧
    ∀ answer, adminAnswer noJson (fun _ => []) (.new 100) (Step.numbered (0, .inventory []) 3).env
        (consoleRun noJson storeOfB (consoleOfA.take 1)) (.subscriptions (some "projects/a")) =
          some (.ok answer) →
      "projects/b/topics/t".toList ∉ answer.names := by
  have hcallers : ∀ ctx request env, .admin (.ok ctx) request env ∈ consoleOfA →
      ¬Allowed ctx "projects/b/topics/t" := by
    intro ctx request env hmem
    have hctx : ctx = Grpc.sampleCaller := by
      simp only [consoleOfA, List.mem_cons, List.not_mem_nil, or_false, ConsoleStep.admin.injEq,
        Except.ok.injEq] at hmem
      rcases hmem with ⟨rfl, -⟩ | ⟨rfl, -⟩ <;> rfl
    rw [hctx]
    decide
  have hothers : ∀ s, .other s ∈ consoleOfA →
      s.call.target ≠ some "projects/b/topics/t".toList := by
    intro s hs
    simp [consoleOfA] at hs
  obtain ⟨huntouched, hanswers⟩ := console_keeps_within noJson (fun _ => []) storeOfB consoleOfA
    "projects/b/topics/t" hcallers hothers
  refine ⟨huntouched, fun answer hanswer => ?_⟩
  exact (hanswers (consoleOfA.take 1) Grpc.sampleCaller (.subscriptions (some "projects/a")) _
    (.new 100) answer (List.prefix_refl _) rfl hanswer).1

/-- The request to publish is refused, and the subscription is shown with its topic. -/
example :
    consoleOfA.map (fun step => step.call.isSome) = [false, true] ∧
      (AdminAnswer.subscriptions (listSubscriptions (consoleRun noJson storeOfB consoleOfA)
        "projects/a" 1000 "").items).references =
          [("projects/a/subscriptions/s".toList, "projects/b/topics/t".toList)] := by
  decide +kernel

end RelayPubsub.Rest
