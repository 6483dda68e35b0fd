import RelayPubsub.RelayEvents.Publish

/-!
# Listings of the HTTP backend

`HttpRelayBackend` of `src/http_backend.rs` asks a legacy API of Relay for its listings. Relay
answers with the whole list, and the backend cuts a page out of it. To list the subscriptions
of a topic it asks itself for a page of the subscriptions of the project, takes those of the
topic, and cuts a page out of their names.

So there are two paginations with a filter between them, and the token of the inner page is
not looked at. A client that follows the tokens of the outer pages gets the subscriptions of
the topic among the first thousand of the project, and all of them exactly if there are no
others (`RelayPubsub.HttpRelay.lists_topic_iff`).

As in `RelayPubsub.RelayEvents`, Relay is a function from a request to a reply; it answers
the same request in the same way every time.
-/

namespace RelayPubsub.HttpRelay

open Lib RelayEvents

/-- What the backend takes from other crates. -/
structure Crates extends RelayEvents.Crates where
  /-- `serde_json::from_slice::<Vec<SubscriptionSpec>>`, or the text of its error. -/
  subscriptionsFromJson : Text → Except Text (List SubscriptionSpec)

structure HttpRelayBackend where
  baseUrl : Text
  token : Option Text

/-- A request without a body. -/
structure Get where
  url : Text
  query : List (Text × Text)
  bearer : Option Text

section Backend

variable (crates : Crates) (backend : HttpRelayBackend) (send : Get → Reply)

def HttpRelayBackend.request (path : Text) (query : List (Text × Text)) : Get where
  url := backend.baseUrl ++ path
  query := query
  bearer := backend.token

/-- The error of a reply with a status that is no success. -/
def statusError (status : ℕ) (text : Text) : BackendError :=
  match status with
  | 404 => .notFound text
  | 409 => .alreadyExists text
  | 400 => .invalidArgument text
  | 412 => .failedPrecondition text
  | 503 | 502 | 504 => .unavailable text
  | _ => .internal ("Relay returned " ++ displayStatus crates.toCrates status ++ ": " ++ text)

/-- `decode`, at the type of a list of subscriptions. -/
def decode (status : ℕ) (text : Text) : Except BackendError (List SubscriptionSpec) :=
  if (Reply.response status text).isSuccess then
    match crates.subscriptionsFromJson text with
    | .ok items => .ok items
    | .error e => .error (.internal e)
  else .error (statusError crates status text)

def listSubscriptions (project : Text) (pageSize : Int32) (pageToken : Text) :
    Except BackendError (Page SubscriptionSpec) :=
  match send (backend.request "/v1/subscriptions" [("project", project)]) with
  | .failure e => .error (.unavailable e)
  | .response status text =>
    (decode crates status text).map fun items => paginate items pageSize pageToken

/-- The first two segments of the name of a topic. -/
def topicProject (topic : Text) : Text := List.intercalate ['/'] ((topic.splitOn '/').take 2)

def listTopicSubscriptions (topic : Text) (pageSize : Int32) (pageToken : Text) :
    Except BackendError (Page Text) :=
  (listSubscriptions crates backend send (topicProject topic) 1000 []).map fun all =>
    let names := (all.items.filter fun s => s.topic = topic).map (·.name)
    paginate names pageSize pageToken

end Backend

/-! ### The subscriptions of a topic -/

/-- The names of the subscriptions of a topic. -/
def namesOf (topic : Text) (subs : List SubscriptionSpec) : List Text :=
  (subs.filter fun s => s.topic = topic).map (·.name)

/-- **Relay answers with these subscriptions** when it is asked for those of the project. -/
def Answers (crates : Crates) (backend : HttpRelayBackend) (send : Get → Reply) (project : Text)
    (subs : List SubscriptionSpec) : Prop :=
  ∃ status text, send (backend.request "/v1/subscriptions" [("project", project)]) =
      .response status text ∧
    (Reply.response status text).isSuccess = true ∧ crates.subscriptionsFromJson text = .ok subs

/-- **A walk came to its end and named each subscription of the topic once.** -/
structure NamesAll (topic : Text) (subs : List SubscriptionSpec) (pages : List (Page Text)) :
    Prop where
  ends : ∃ page, pages.getLast? = some page ∧ page.nextPageToken = []
  names : (pages.map (·.items)).flatten.Perm (namesOf topic subs)

section Listed

variable {crates : Crates} {backend : HttpRelayBackend} {send : Get → Reply} {topic : Text}
  {subs : List SubscriptionSpec}

theorem Answers.listSubscriptions {project : Text} (h : Answers crates backend send project subs)
    (pageSize : Int32) (pageToken : Text) :
    listSubscriptions crates backend send project pageSize pageToken =
      .ok (paginate subs pageSize pageToken) := by
  obtain ⟨status, text, hsend, hsuccess, hjson⟩ := h
  simp only [HttpRelay.listSubscriptions, hsend, decode, hsuccess, if_true, hjson]
  rfl

/-- The names that are paginated: those of the first thousand subscriptions. -/
theorem Answers.listTopicSubscriptions (h : Answers crates backend send (topicProject topic) subs)
    (pageSize : Int32) (pageToken : Text) :
    listTopicSubscriptions crates backend send topic pageSize pageToken =
      .ok (paginate (namesOf topic (subs.take 1000)) pageSize pageToken) := by
  have hlimit : pageLimit 1000 = 1000 := by decide
  have hstart : pageStart [] = 0 := rfl
  have hinner : (paginate subs 1000 []).items = subs.take 1000 := by
    rw [paginate_items (by rw [hlimit, hstart]; decide), hlimit, hstart, List.drop_zero]
  rw [HttpRelay.listTopicSubscriptions, h.listSubscriptions, Except.map, hinner]
  rfl

theorem namesOf_append (subs subs' : List SubscriptionSpec) :
    namesOf topic (subs ++ subs') = namesOf topic subs ++ namesOf topic subs' := by
  rw [namesOf, List.filter_append, List.map_append]
  rfl

theorem namesOf_eq_nil_iff : namesOf topic subs = [] ↔ ∀ s ∈ subs, s.topic ≠ topic := by
  simp [namesOf, List.filter_eq_nil_iff]

/-- The names of a beginning of the list are all exactly if the rest has none. -/
theorem namesOf_take_perm_iff (k : ℕ) :
    (namesOf topic (subs.take k)).Perm (namesOf topic subs) ↔
      ∀ s ∈ subs.drop k, s.topic ≠ topic := by
  have hsplit : namesOf topic subs =
      namesOf topic (subs.take k) ++ namesOf topic (subs.drop k) := by
    rw [← namesOf_append, List.take_append_drop]
  rw [← namesOf_eq_nil_iff, hsplit]
  constructor
  · intro hperm
    have hlen := hperm.length_eq
    rw [List.length_append] at hlen
    exact List.length_eq_zero_iff.mp (by omega)
  · intro hnil
    rw [hnil, List.append_nil]

/-- **What a walk finds**: the names of the first thousand subscriptions. -/
theorem Answers.walked (h : Answers crates backend send (topicProject topic) subs)
    (sizes : ℕ → Int32) {n : ℕ} (hn : 1000 < n) :
    ∃ pages, walkOrFail (HttpRelay.listTopicSubscriptions crates backend send topic) sizes n =
        .ok pages ∧
      Walked (namesOf topic (subs.take 1000)) pages := by
  have hlen : (namesOf topic (subs.take 1000)).length ≤ 1000 := by
    rw [namesOf, List.length_map]
    exact (List.length_filter_le _ _).trans (List.length_take_le _ _)
  exact ⟨_, walkFromOrFail_eq h.listTopicSubscriptions n sizes [],
    walked_walk (by omega) sizes (by omega)⟩

theorem Answers.namesAll_iff (h : Answers crates backend send (topicProject topic) subs)
    (sizes : ℕ → Int32) {n : ℕ} (hn : 1000 < n) :
    (∃ pages, walkOrFail (HttpRelay.listTopicSubscriptions crates backend send topic) sizes n =
        .ok pages ∧ NamesAll topic subs pages) ↔
      (namesOf topic (subs.take 1000)).Perm (namesOf topic subs) := by
  obtain ⟨pages, hpages, hwalked⟩ := h.walked sizes hn
  constructor
  · rintro ⟨pages', hpages', hnames⟩
    obtain rfl := Except.ok.inj (hpages.symm.trans hpages')
    rw [← hwalked.visits]
    exact hnames.names
  · intro hperm
    refine ⟨pages, hpages, hwalked.ends, ?_⟩
    rw [hwalked.visits]
    exact hperm

/-- **Following the tokens names every subscription of the topic once**, whatever page sizes
are asked for, exactly if none of them comes after the first thousand that Relay lists for
the project. -/
theorem lists_topic_iff (h : Answers crates backend send (topicProject topic) subs)
    (sizes : ℕ → Int32) {n : ℕ} (hn : 1000 < n) :
    (∃ pages, walkOrFail (HttpRelay.listTopicSubscriptions crates backend send topic) sizes n =
        .ok pages ∧ NamesAll topic subs pages) ↔
      ∀ s ∈ subs.drop 1000, s.topic ≠ topic :=
  (h.namesAll_iff sizes hn).trans (namesOf_take_perm_iff 1000)

end Listed

/-- Crates that read some subscriptions from any text. -/
def cratesReading (subs : List SubscriptionSpec) : Crates :=
  { sampleCrates with subscriptionsFromJson := fun _ => .ok subs }

/-- A Relay that answers everything with success. -/
def alwaysOk : Get → Reply := fun _ => .response 200 []

theorem answers_alwaysOk (backend : HttpRelayBackend) (project : Text)
    (subs : List SubscriptionSpec) :
    Answers (cratesReading subs) backend alwaysOk project subs :=
  ⟨200, [], rfl, rfl, rfl⟩

/-- The subscriptions with numbers below `k`, on one topic. -/
def numbered (k : ℕ) : List SubscriptionSpec :=
  (List.range k).map fun i =>
    { name := "projects/p/subscriptions/s" ++ decimal i
      topic := "projects/p/topics/t"
      ackDeadlineSeconds := 10 }

/-- Two subscriptions, listed one by one. -/
theorem lists_topic_two : ∃ pages,
    walkOrFail (listTopicSubscriptions (cratesReading (numbered 2)) ⟨"http://relay", none⟩ alwaysOk
      "projects/p/topics/t") (fun _ => 1) 1001 = .ok pages ∧
    NamesAll "projects/p/topics/t" (numbered 2) pages := by
  refine (lists_topic_iff (answers_alwaysOk _ _ _) _ (by decide)).mpr ?_
  rw [List.drop_eq_nil_of_le (by simp [numbered])]
  exact fun _ hs => (List.not_mem_nil hs).elim

/-- The last of a thousand and one subscriptions is not listed. -/
theorem thousand_and_one_not_listed : ¬∃ pages,
    walkOrFail (listTopicSubscriptions (cratesReading (numbered 1001)) ⟨"http://relay", none⟩
      alwaysOk "projects/p/topics/t") (fun _ => 1000) 1002 = .ok pages ∧
    NamesAll "projects/p/topics/t" (numbered 1001) pages := by
  rw [(answers_alwaysOk _ _ _).namesAll_iff _ (by decide), namesOf_take_perm_iff]
  intro hnone
  have hpos : 0 < ((numbered 1001).drop 1000).length := by simp [numbered]
  obtain ⟨s, hs⟩ := List.exists_mem_of_length_pos hpos
  obtain ⟨i, -, rfl⟩ := List.mem_map.mp (List.mem_of_mem_drop hs)
  exact hnone _ hs rfl

end RelayPubsub.HttpRelay
