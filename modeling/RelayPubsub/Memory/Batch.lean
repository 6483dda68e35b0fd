import RelayPubsub.Memory.Durable
import RelayPubsub.Memory.ExactlyOnce

/-!
# An acknowledgement that is refused

`acknowledge` goes through its batch and changes the leases as it goes, so what
a refusal leaves behind depends on where in the batch it stops. A call that
stops at an expired lease has taken that lease off the table already, and does
not write the state file; it is the only refusal that changes anything
(`RelayPubsub.Memory.ack_all_or_nothing_iff`).
-/

namespace RelayPubsub.Memory

open Lib

/-- **A store, and the state its file holds.** -/
structure Saved where
  state : State := {}
  file : State := {}

/-- One step of a store whose file operations succeed: the file takes over the
state when the call gets to writing it. -/
def Saved.step (serde : SerdeJson) (w : Saved) (s : Step) : Saved :=
  { state := exec serde w.state s
    file := if persists serde w.state s then exec serde w.state s else w.file }

/-- **A refused acknowledgement changes nothing**: the store is what it was, and is
still what the file holds if it was so before. -/
def AckAllOrNothing (serde : SerdeJson) (w : Saved) (env : Env) (name : Text)
    (ackIds : List Text) : Prop :=
  ∀ e, (acknowledge env w.state name ackIds).1 = .error e →
    (w.step serde ⟨.acknowledge name ackIds, env⟩).state = w.state ∧
    (w.state = w.file →
      (w.step serde ⟨.acknowledge name ackIds, env⟩).state =
        (w.step serde ⟨.acknowledge name ackIds, env⟩).file)

variable {serde : SerdeJson}

/-- An acknowledgement that stops has taken a lease off the table. -/
theorem exists_released_of_error {now : Time} {topic : Option TopicState}
    {sub : SubscriptionState} {ackIds : List Text} {e : BackendError}
    (h : (acknowledgeEach now topic sub ackIds).1 = .error e) :
    ∃ ackId, ackId ∈ sub.inflight ∧
      ackId ∉ (acknowledgeEach now topic sub ackIds).2.inflight := by
  induction ackIds generalizing sub with
  | nil => simp [acknowledgeEach] at h
  | cons ackId ackIds ih =>
    unfold acknowledgeEach at h ⊢
    split at h
    · exact ih h
    · rename_i entry hentry
      have hmem : ackId ∈ sub.inflight :=
        Std.ExtTreeMap.mem_iff_isSome_getElem?.mpr (by rw [hentry]; rfl)
      dsimp only at h ⊢
      split at h
      · rename_i hexp
        rw [if_pos hexp]
        exact ⟨ackId, hmem, by simp [SubscriptionState.release]⟩
      · rename_i hlive
        rw [if_neg hlive]
        obtain ⟨id, hid, hout⟩ := ih h
        -- the leases left after the first one are among those of before
        exact ⟨id, Std.ExtTreeMap.mem_of_mem_erase hid, hout⟩

/-- **A refused acknowledgement changes nothing exactly if none of its ids names an
expired lease** of an exactly-once subscription. -/
theorem ack_all_or_nothing_iff (w : Saved) (env : Env) (hfile : env.persistFault = none)
    (name : Text) (ackIds : List Text) :
    AckAllOrNothing serde w env name ackIds ↔
      ∀ sub, w.state.subscriptions[name]? = some sub →
        ∀ ackId ∈ ackIds, ¬sub.Expired (env.now 0) ackId := by
  constructor
  · intro h sub hsub
    by_contra hexp
    -- the call stops, and the lease it has taken off is missing afterwards
    have hstop : (acknowledgeEach (env.now 0) w.state.topics[sub.spec.topic]? sub ackIds).1 ≠
        .ok () := fun hok => hexp (acknowledgeEach_ok_iff.mp hok)
    obtain ⟨e, he⟩ : ∃ e,
        (acknowledgeEach (env.now 0) w.state.topics[sub.spec.topic]? sub ackIds).1 = .error e := by
      rcases hres : (acknowledgeEach (env.now 0) w.state.topics[sub.spec.topic]? sub ackIds).1
        with e | ⟨⟩
      · exact ⟨e, rfl⟩
      · exact absurd hres hstop
    have hanswer : (acknowledge env w.state name ackIds).1 = .error e := by
      simp only [acknowledge, hsub, he]
    obtain ⟨ackId, hin, hout⟩ := exists_released_of_error he
    have hsame := congrArg (fun st => st.subscriptions[name]?) (h e hanswer).1
    simp only [Saved.step, exec] at hsame
    rw [acknowledge_subscriptions hsub, Std.ExtTreeMap.getElem?_insert_self, hsub] at hsame
    rw [Option.some.inj hsame] at hout
    exact hout hin
  · intro hlive e he
    rcases hsub : w.state.subscriptions[name]? with - | sub
    · have hsame : acknowledge env w.state name ackIds = (.error (.notFound name), w.state) := by
        simp only [acknowledge, hsub]
      have hstate : (w.step serde ⟨.acknowledge name ackIds, env⟩).state = w.state := by
        simp only [Saved.step, exec, hsame]
      refine ⟨hstate, fun heq => ?_⟩
      simp only [Saved.step, exec, hsame, ← heq, ite_self]
    · -- with no expired lease among its ids the call succeeds
      have hok := (acknowledge_ok_iff hsub).mpr ⟨hfile, hlive sub hsub⟩
      rw [hok] at he
      cases he

/-! ### A batch that stops at an expired lease -/

/-- Two messages of an exactly-once subscription are pulled; the lease of the first
is extended. -/
def halfExtended : Run := .ofCalls
  [(0, .createTopic sampleTopic),
   (0, .createSubscription { sampleSubscription with enableExactlyOnceDelivery := true }),
   (0, .publish sampleTopic.name [sampleMessage "", sampleMessage ""]),
   (0, .pull sampleSubscription.name 2),
   (0, .modifyAckDeadline sampleSubscription.name
     [exactlyOnceId sampleSubscription.name 0 1] 60)]

/-- The store after that, and its file. -/
def halfExtended.saved : Saved := Machine.run (Saved.step noJson) {} halfExtended.steps

/-- The reading of the clock at which both are acknowledged, 11 seconds later. -/
def lateEnv : Env := (Step.numbered (seconds 11, .getTopic sampleTopic.name) 5).env

/-- The lease that has been extended is acknowledged alone. -/
theorem halfExtended_all_or_nothing :
    AckAllOrNothing noJson halfExtended.saved lateEnv sampleSubscription.name
      [exactlyOnceId sampleSubscription.name 0 1] := by
  refine (ack_all_or_nothing_iff halfExtended.saved lateEnv rfl sampleSubscription.name
    [exactlyOnceId sampleSubscription.name 0 1]).mpr fun sub hsub ackId hmem hexp => ?_
  obtain rfl := List.mem_singleton.mp hmem
  obtain ⟨-, entry, hentry, hdead⟩ := hexp
  have hlive : ((halfExtended.saved.state.subscriptions[sampleSubscription.name]?.bind fun sub =>
      sub.inflight[exactlyOnceId sampleSubscription.name 0 1]?).all fun entry =>
        decide (lateEnv.now 0 ≤ entry.deadline)) = true := by
    decide +kernel
  rw [hsub, Option.bind_some, hentry, Option.all_some, decide_eq_true_eq] at hlive
  exact absurd hdead (not_lt.mpr hlive)

/-- **Both in one batch**: the call is refused, because the second lease has
expired; the first message is acked by it, and both leases are gone. -/
theorem halfExtended_half_acked :
    ¬AckAllOrNothing noJson halfExtended.saved lateEnv sampleSubscription.name
      [exactlyOnceId sampleSubscription.name 0 1, exactlyOnceId sampleSubscription.name 1 1] := by
  intro h
  have hrefused : (acknowledge lateEnv halfExtended.saved.state sampleSubscription.name
      [exactlyOnceId sampleSubscription.name 0 1,
       exactlyOnceId sampleSubscription.name 1 1]).1 =
      .error (.failedPrecondition ("ack deadline expired for " ++
        exactlyOnceId sampleSubscription.name 1 1)) := by
    decide +kernel
  have hsame := congrArg (fun st : State =>
    st.subscriptions[sampleSubscription.name]?.map (·.acked)) (h _ hrefused).1
  revert hsame
  decide +kernel

end RelayPubsub.Memory
