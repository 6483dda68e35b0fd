import RelayPubsub.Model

/-!
# The backend interface

`RelayBackend` of `src/backend.rs`, as the type of its calls: one constructor a
method, with the method's arguments. The gateways produce these calls and a
backend answers them, so a run of a backend is a list of them.
-/

namespace RelayPubsub

open Lib

/-- **A call of the backend interface.** -/
inductive BackendCall where
  | createTopic (topic : TopicSpec)
  | updateTopic (topic : TopicSpec) (updateMask : List Text)
  | getTopic (name : Text)
  | listTopics (project : Text) (pageSize : Int32) (pageToken : Text)
  | listTopicSubscriptions (topic : Text) (pageSize : Int32) (pageToken : Text)
  | deleteTopic (name : Text)
  | createSubscription (subscription : SubscriptionSpec)
  | updateSubscription (subscription : SubscriptionSpec) (updateMask : List Text)
  | getSubscription (name : Text)
  | listSubscriptions (project : Text) (pageSize : Int32) (pageToken : Text)
  | deleteSubscription (name : Text)
  | modifyPushConfig (subscription : Text) (pushEndpoint : Option Text)
      (pushAttributes : StrMap Text)
  | publish (topic : Text) (messages : List NewMessage)
  | pull (subscription : Text) (maxMessages : UInt32)
  | acknowledge (subscription : Text) (ackIds : List Text)
  | modifyAckDeadline (subscription : Text) (ackIds : List Text) (seconds : UInt32)
  | seekToTime (subscription : Text) (time : Time)
  | seekToSnapshot (subscription snapshot : Text)
  | createSnapshot (name subscription : Text) (labels : StrMap Text)
  | updateSnapshot (snapshot : SnapshotSpec) (updateMask : List Text)
  | getSnapshot (name : Text)
  | listSnapshots (project : Text) (pageSize : Int32) (pageToken : Text)
  | deleteSnapshot (name : Text)
  | getIamPolicy (resource : Text)
  | setIamPolicy (resource : Text) (policy : IamPolicy)
  | testIamPermissions (resource : Text) (permissions : List Text)
  | createSchema (schema : SchemaSpec)
  | getSchema (name : Text)
  | listSchemas (parent : Text) (pageSize : Int32) (pageToken : Text)
  | deleteSchema (name : Text)
  | validateSchema (schema : SchemaSpec)
  | validateMessage (schemaName : Option Text) (schema : Option SchemaSpec) (message : Bytes)
  | listPushSubscriptions
  | inventory (project : Text)

/-- **The resource a call acts on**, if it is one that creates or changes
something: the resource it creates, updates or deletes, the topic it publishes
to, the subscription it pulls from, acknowledges on or seeks. -/
def BackendCall.target : BackendCall → Option Text
  | .createTopic topic | .updateTopic topic _ => some topic.name
  | .createSubscription subscription | .updateSubscription subscription _ => some subscription.name
  | .createSnapshot name _ _ => some name
  | .updateSnapshot snapshot _ => some snapshot.name
  | .createSchema schema => some schema.name
  | .deleteTopic name | .deleteSubscription name | .deleteSnapshot name | .deleteSchema name =>
    some name
  | .publish topic _ => some topic
  | .pull subscription _ | .acknowledge subscription _ | .modifyAckDeadline subscription _ _
  | .seekToTime subscription _ | .seekToSnapshot subscription _
  | .modifyPushConfig subscription _ _ => some subscription
  | .setIamPolicy resource _ => some resource
  | .getTopic _ | .listTopics _ _ _ | .listTopicSubscriptions _ _ _ | .getSubscription _
  | .listSubscriptions _ _ _ | .getSnapshot _ | .listSnapshots _ _ _ | .getIamPolicy _
  | .testIamPermissions _ _ | .getSchema _ | .listSchemas _ _ _ | .validateSchema _
  | .validateMessage _ _ _ | .listPushSubscriptions | .inventory _ => none

end RelayPubsub
