import RelayPubsub.Isolation
import RelayPubsub.Lib.Base64
import RelayPubsub.Memory.Document
import RelayPubsub.Memory.Origin
import RelayPubsub.Push.Dispatcher

/-!
# Messages on the wire

A message goes to a client as JSON, as a protobuf message, or in the body of a request to
its push endpoint. What the client has then is read here as the gateway reads a message
that is published to it: each way gives the message back, id included
(`RelayPubsub.Channel.read_delivery`). So whatever a client of the API receives, in any run
and by any way, some client has sent, by whichever (`RelayPubsub.received_as_sent`).

| to a client | from a client |
|---|---|
| `delivery_json` of `src/rest.rs` | `parse_messages` |
| `delivery_to_proto` of `src/grpc.rs` | `publish` |
| the body posted by `src/push.rs` | |
-/

namespace RelayPubsub

open Lib Memory

/-! ### Encoders -/

/-- `delivery_json` -/
def Rest.deliveryJson (crates : Push.Crates) (delivery : Delivery) : Value :=
  .object
    [("ackId", .string delivery.ackId),
     ("deliveryAttempt", Rest.u32Json delivery.deliveryAttempt),
     ("message",
        .object
          [("data", .string (crates.base64Encode delivery.message.data)),
           ("attributes", Rest.stringMapJson delivery.message.attributes),
           ("messageId", .string delivery.message.id),
           ("publishTime", .string (crates.toRfc3339 delivery.message.publishedAt)),
           ("orderingKey", .string delivery.message.orderingKey)])]

/-- `ReceivedMessage` -/
structure Grpc.ReceivedMessage where
  ackId : Text
  message : Option Grpc.PubsubMessage
  deliveryAttempt : Int32

/-- `delivery_to_proto`; a count of attempts from `2 ^ 31` on wraps. -/
def Grpc.deliveryToProto (value : Delivery) : Grpc.ReceivedMessage where
  ackId := value.ackId
  message := some
    { data := value.message.data
      attributes := value.message.attributes
      messageId := value.message.id
      publishTime := some
        ⟨.ofInt (value.message.publishedAt / 1000000000),
          .ofInt (value.message.publishedAt % 1000000000)⟩
      orderingKey := value.message.orderingKey }
  deliveryAttempt := value.deliveryAttempt.toInt32

/-! ### What a client reads -/

/-- **The way of a message to a client.** -/
inductive Channel where
  | rest
  | grpc
  | push (endpoint subscription : Text)

/-- The message, as one that is published. -/
def content (r : RelayMessage) : NewMessage where
  data := r.data
  attributes := r.attributes
  orderingKey := r.orderingKey
  messageId := r.id

/-- The message in a JSON object, as the gateway reads one. -/
def messageOf (codecs : Rest.Codecs) (value : Value) : Option NewMessage :=
  (value.get "message").bind fun m => (Rest.parseMessage codecs m).toOption

/-- **What the client reads**, who has the delivery by this way. -/
def Channel.read (crates : Push.Crates) (codecs : Rest.Codecs) (delivery : Delivery) :
    Channel → Option NewMessage
  | .rest => messageOf codecs (Rest.deliveryJson crates delivery)
  | .grpc => (Grpc.deliveryToProto delivery).message.map Grpc.newMessageFromProto
  | .push endpoint subscription =>
    messageOf codecs (Push.Post.body crates ⟨endpoint, subscription, delivery, true⟩)

section Read

variable {crates : Push.Crates} {codecs : Rest.Codecs}

/-- The message in a JSON object is read back. -/
theorem parseMessage_json (hbase64 : ∀ data, codecs.base64Decode (crates.base64Encode data) =
    some data) (r : RelayMessage) :
    Rest.parseMessage codecs
        (.object
          [("data", .string (crates.base64Encode r.data)),
           ("attributes", Rest.stringMapJson r.attributes),
           ("messageId", .string r.id),
           ("publishTime", .string (crates.toRfc3339 r.publishedAt)),
           ("orderingKey", .string r.orderingKey)]) = .ok (content r) := by
  set m : Value := .object
    [("data", .string (crates.base64Encode r.data)),
     ("attributes", Rest.stringMapJson r.attributes),
     ("messageId", .string r.id),
     ("publishTime", .string (crates.toRfc3339 r.publishedAt)),
     ("orderingKey", .string r.orderingKey)] with hm
  have hdata : (m.getStr "data").getD [] = crates.base64Encode r.data := rfl
  have hattributes : m.get "attributes" = some (Rest.stringMapJson r.attributes) := rfl
  have hkey : (m.getStr "orderingKey").getD [] = r.orderingKey := rfl
  have hid : (m.getStr "messageId").getD [] = r.id := rfl
  unfold Rest.parseMessage
  rw [hdata, hbase64, hattributes, hkey, hid]
  dsimp only
  rw [Rest.toStringMap_stringMapJson]
  rfl

/-- **Every way gives the message back.** -/
theorem Channel.read_delivery (hbase64 : ∀ data, codecs.base64Decode (crates.base64Encode data) =
    some data) (delivery : Delivery) (channel : Channel) :
    channel.read crates codecs delivery = some (content delivery.message) := by
  have hjson := @parseMessage_json crates codecs hbase64 delivery.message
  cases channel with
  | rest =>
    show (Rest.parseMessage codecs _).toOption = _
    rw [hjson]
    rfl
  | grpc => rfl
  | push endpoint subscription =>
    show (Rest.parseMessage codecs _).toOption = _
    rw [hjson]
    rfl

end Read

/-! ### Runs of the API -/

namespace Decoders

variable (d : Decoders)

/-- The calls that a run makes on the store. -/
def storeSteps (steps : List ApiStep) : List Step :=
  steps.filterMap fun a => (d.call a).map fun call => ⟨call, a.env⟩

theorem after_eq_stateAfter (steps : List ApiStep) :
    d.after steps = stateAfter d.codecs.serde (d.storeSteps steps) := by
  induction steps using List.reverseRecOn with
  | nil => rfl
  | append_singleton steps a ih =>
    have hafter : d.after (steps ++ [a]) = d.step (d.after steps) a := Machine.run_concat _ _ _ _
    rw [hafter, storeSteps, List.filterMap_append, ← storeSteps, ih]
    unfold step
    rcases hcall : d.call a with - | call
    · simp [hcall]
    · simp only [List.filterMap_cons, hcall, Option.map_some, List.filterMap_nil]
      rw [stateAfter_concat]

/-- **A client has sent the message**: an authorized request of the run publishes it. -/
def Sent (steps : List ApiStep) (m : NewMessage) : Prop :=
  ∃ a ∈ steps, ∃ topic messages, d.call a = some (.publish topic messages) ∧ m ∈ messages

/-- What a request is answered after a run, if it is a pull. -/
def deliveries (steps : List ApiStep) (a : ApiStep) : List Delivery :=
  match d.call a with
  | some (.pull name maxMessages) =>
    match (pull a.env (d.after steps) name maxMessages).1 with
    | .returned (.ok deliveries) => deliveries
    | _ => []
  | _ => []

theorem mem_deliveries {steps : List ApiStep} {a : ApiStep} {delivery : Delivery}
    (h : delivery ∈ d.deliveries steps a) :
    ∃ name maxMessages deliveries, d.call a = some (.pull name maxMessages) ∧
      (pull a.env (d.after steps) name maxMessages).1 = .returned (.ok deliveries) ∧
      delivery ∈ deliveries := by
  unfold deliveries at h
  split at h
  · rename_i name maxMessages hcall
    split at h
    · rename_i deliveries hpull
      exact ⟨name, maxMessages, deliveries, hcall, hpull, h⟩
    · cases h
  · cases h

/-- **What is delivered has been sent**, but for the attributes that the gateway sets. -/
theorem sent_of_delivered {steps : List ApiStep} {a : ApiStep} {delivery : Delivery}
    (h : delivery ∈ d.deliveries steps a) :
    ∃ m, d.Sent steps m ∧ delivery.message.data = m.data ∧
      delivery.message.orderingKey = m.orderingKey ∧
      ∀ k ∉ gatewayKeys, delivery.message.attributes[k]? = m.attributes[k]? := by
  obtain ⟨name, maxMessages, deliveries, hcall, hpull, hmem⟩ := d.mem_deliveries h
  rw [after_eq_stateAfter] at hpull
  obtain ⟨sub, -, horigins⟩ := @origins_of_pull d.codecs.serde _
    ⟨.pull name maxMessages, a.env⟩ _ _ _ rfl hpull
  obtain ⟨past, s, topic, messages, m, hpre, hpublish, hm, hcontent⟩ :=
    (horigins delivery hmem).wasPublished
  refine ⟨m, ?_, hcontent⟩
  rcases List.mem_append.mp (hpre.subset (List.mem_append_right _ (List.mem_singleton_self s)))
    with hs | hs
  · obtain ⟨b, hb, hstep⟩ := List.mem_filterMap.mp hs
    obtain ⟨call, hcall', rfl⟩ := Option.map_eq_some_iff.mp hstep
    exact ⟨b, hb, topic, messages, hcall'.trans (congrArg some hpublish), hm⟩
  · -- the pull itself publishes nothing
    rw [List.mem_singleton.mp hs] at hpublish
    cases hpublish

end Decoders

/-- The encoders of a gateway in January 1970, and its decoders. -/
def wireCrates : Push.Crates where
  base64Encode := base64Encode
  toRfc3339 t := (januaryText (t / 1000000000).toNat).dropLast ++ "+00:00"

def wireDecoders : Decoders where
  codecs := { serde := compactJson, base64Decode, parseFromRfc3339 := january.parse }
  fromTimestamp seconds nanos :=
    if nanos.toNat < 2000000000 then some (seconds.toInt * 1000000000 + nanos.toNat) else none

/-- A gateway without an authenticator gets a gRPC request, as the `k`-th step. -/
def openStep (request : Grpc.Request) (k : ℕ) : ApiStep where
  caller := none
  request := .grpc 0 request
  env := (Step.numbered (0, .listPushSubscriptions) k).env

/-- It gets a REST request. -/
def postStep (path : Text) (body : Text) (k : ℕ) : ApiStep where
  caller := none
  request := .rest 0 { method := .post, uriPath := path, query := [], body := asBytes body }
  env := (Step.numbered (0, .listPushSubscriptions) k).env

/-- A message is published to a topic that has a subscription. -/
def sentOnce : List ApiStep :=
  [openStep (.createTopic { name := "projects/a/topics/t" }) 0,
    openStep (.createSubscription
      { name := "projects/a/subscriptions/s", topic := "projects/a/topics/t" }) 1,
    postStep "/v1/projects/a/topics/t:publish"
      ("\x7b\"messages\":[\x7b\"data\":\"aGk=\"," ++
        "\"attributes\":\x7b\"colour\":\"red\"\x7d,\"orderingKey\":\"k\"\x7d]\x7d").toList 2]

/-- It is pulled. -/
def pulledAfter : ApiStep :=
  postStep "/v1/projects/a/subscriptions/s:pull" "\x7b\"maxMessages\":1\x7d" 3

end RelayPubsub
