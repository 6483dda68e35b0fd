import RelayPubsub.Lib.Trace

/-!
# A broker, in the abstract

A publish/subscribe service as one would specify it (`Lib.Broker`): logs that grow at the
end, consumers with a `Lib.Ledger` each, and marks that keep a position of a log. Everything
that can happen to it is one of the actions `Lib.Broker.Act`, each of them atomic, and
`Lib.Broker.Step` says when:

* a consumer is given a position only if the log has it, and, if it wants the groups of a log
  in order, only once the earlier positions of the group are done;
* a lease is lost only by a consumer that is strict about its leases;
* a message that is diverted goes to another log and is done at the consumer in one action,
  so that it is neither lost nor doubled in between.

Names, tokens and messages are arbitrary types; which positions of a log belong together, and
what a copy of a message is, are the `Lib.Broker.Rules` of a service.
-/

namespace Lib

open Ledger

/-- **A consumer** of a log. -/
structure Consumer (ν κ : Type*) where
  topic : ν
  /-- The groups of the log are to be handed out in order. -/
  ordered : Prop
  /-- A lease that is used too late is lost. -/
  strict : Prop
  ledger : Ledger κ

/-- **The state of a broker.** -/
@[ext] structure Broker (ν κ μ : Type*) where
  log : ν → Option (List μ)
  consumer : ν → Option (Consumer ν κ)
  mark : ν → Option (ν × ℕ)

namespace Broker

variable {ν κ μ : Type*}

/-- A broker that has nothing. -/
def empty : Broker ν κ μ := ⟨fun _ => none, fun _ => none, fun _ => none⟩

/-- **What is particular to a service.** -/
structure Rules (ν μ : Type*) where
  /-- Two positions of a log belong to one group. -/
  same : List μ → ℕ → ℕ → Prop
  /-- The second message is a copy of the first one, made for a consumer. -/
  copy : ν → μ → μ → Prop

/-- **What can happen to a broker.** -/
inductive Act (ν κ μ : Type*) where
  | start (topic : ν)
  | stop (topic : ν)
  | append (topic : ν) (message : μ)
  | join (name topic : ν) (ordered strict : Prop)
  | leave (name : ν)
  | configure (name : ν) (ordered strict : Prop)
  /-- An event on the ledger of a consumer. -/
  | move (name : ν) (e : Event κ)
  /-- A position is taken and done, and a copy of its message is appended to a log. -/
  | divert (name : ν) (i : ℕ) (topic : ν) (message : μ)
  | mark (name consumer : ν)
  | unmark (name : ν)

variable [DecidableEq ν] [DecidableEq κ]

def setLog (B : Broker ν κ μ) (topic : ν) (log : Option (List μ)) : Broker ν κ μ :=
  { B with log := Function.update B.log topic log }

def setConsumer (B : Broker ν κ μ) (name : ν) (c : Option (Consumer ν κ)) : Broker ν κ μ :=
  { B with consumer := Function.update B.consumer name c }

def setMark (B : Broker ν κ μ) (name : ν) (m : Option (ν × ℕ)) : Broker ν κ μ :=
  { B with mark := Function.update B.mark name m }

section Simp

variable (B : Broker ν κ μ) (name : ν) (c : Option (Consumer ν κ)) (l : Option (List μ))

omit [DecidableEq κ] in
@[simp] theorem setConsumer_log : (B.setConsumer name c).log = B.log := rfl

omit [DecidableEq κ] in
@[simp] theorem setConsumer_mark : (B.setConsumer name c).mark = B.mark := rfl

omit [DecidableEq κ] in
@[simp] theorem setConsumer_self : (B.setConsumer name c).consumer name = c :=
  Function.update_self ..

omit [DecidableEq κ] in
@[simp] theorem setLog_self : (B.setLog name l).log name = l := Function.update_self ..

omit [DecidableEq κ] in
/-- What was set first does not matter. -/
@[simp] theorem setConsumer_setConsumer (c' : Option (Consumer ν κ)) :
    (B.setConsumer name c).setConsumer name c' = B.setConsumer name c' := by
  simp [setConsumer]

omit [DecidableEq κ] in
@[simp] theorem setLog_setLog (l' : Option (List μ)) :
    (B.setLog name l).setLog name l' = B.setLog name l' := by
  simp [setLog]

omit [DecidableEq κ] in
/-- Setting what is there. -/
theorem setConsumer_eq_self {B : Broker ν κ μ} {name : ν} {c : Option (Consumer ν κ)}
    (h : B.consumer name = c) : B.setConsumer name c = B := by
  rw [setConsumer, ← h, Function.update_eq_self]

omit [DecidableEq κ] in
theorem setLog_eq_self {B : Broker ν κ μ} {name : ν} {l : Option (List μ)}
    (h : B.log name = l) : B.setLog name l = B := by
  rw [setLog, ← h, Function.update_eq_self]

omit [DecidableEq κ] in
theorem setMark_eq_self {B : Broker ν κ μ} {name : ν} {m : Option (ν × ℕ)}
    (h : B.mark name = m) : B.setMark name m = B := by
  rw [setMark, ← h, Function.update_eq_self]

end Simp

/-- **The event is allowed** to a consumer of the broker. -/
def Permits (R : Rules ν μ) (B : Broker ν κ μ) (c : Consumer ν κ) : Event κ → Prop
  | .grant _ i => ∃ log, B.log c.topic = some log ∧ i < log.length ∧
      (c.ordered → ∀ j < i, R.same log j i → j ∈ c.ledger.done)
  | .park i | .retire i => ∃ log, B.log c.topic = some log ∧ i < log.length
  | .rewind n => (∃ log, B.log c.topic = some log ∧ n ≤ log.length) ∨
      ∃ m, B.mark m = some (c.topic, n)
  | .forfeit _ _ => c.strict
  | .requeue _ _ | .settle _ _ => True

/-- **One action.** -/
inductive Step (R : Rules ν μ) (B : Broker ν κ μ) : Act ν κ μ → Broker ν κ μ → Prop
  | start {topic : ν} : B.log topic = none → Step R B (.start topic) (B.setLog topic (some []))
  | stop (topic : ν) : Step R B (.stop topic) (B.setLog topic none)
  | append {topic : ν} {log : List μ} (message : μ) : B.log topic = some log →
      Step R B (.append topic message) (B.setLog topic (some (log ++ [message])))
  /-- A new consumer is given what is appended from now on. -/
  | join {name topic : ν} {log : List μ} (ordered strict : Prop) : B.consumer name = none →
      B.log topic = some log → Step R B (.join name topic ordered strict)
        (B.setConsumer name (some ⟨topic, ordered, strict, rewound log.length⟩))
  | leave (name : ν) : Step R B (.leave name) (B.setConsumer name none)
  | configure {name : ν} {c : Consumer ν κ} (ordered strict : Prop) : B.consumer name = some c →
      Step R B (.configure name ordered strict)
        (B.setConsumer name (some { c with ordered, strict }))
  | move {name : ν} {c : Consumer ν κ} {e : Event κ} {M : Ledger κ} : B.consumer name = some c →
      Move c.ledger e M → B.Permits R c e →
      Step R B (.move name e) (B.setConsumer name (some { c with ledger := M }))
  | divert {name topic : ν} {c : Consumer ν κ} {i : ℕ} {M : Ledger κ} {log log' : List μ}
      {original message : μ} : B.consumer name = some c → Move c.ledger (.retire i) M →
      B.log c.topic = some log → log[i]? = some original → R.copy name original message →
      B.log topic = some log' →
      Step R B (.divert name i topic message)
        ((B.setConsumer name (some { c with ledger := M })).setLog topic
          (some (log' ++ [message])))
  | mark {name consumer : ν} {c : Consumer ν κ} : B.mark name = none →
      B.consumer consumer = some c → Step R B (.mark name consumer)
        (B.setMark name (some (c.topic, c.ledger.cursor)))
  | unmark (name : ν) : Step R B (.unmark name) (B.setMark name none)

/-- **A run of the broker.** -/
inductive Runs (R : Rules ν μ) : Broker ν κ μ → List (Act ν κ μ) → Broker ν κ μ → Prop
  | nil (B : Broker ν κ μ) : Runs R B [] B
  | cons {B C D : Broker ν κ μ} {a : Act ν κ μ} {as : List (Act ν κ μ)} :
      Step R B a C → Runs R C as D → Runs R B (a :: as) D

/-- The leases that an action hands out to a consumer. -/
def Act.grants (name : ν) : Act ν κ μ → List (κ × ℕ)
  | .move n (.grant k i) => if n = name then [(k, i)] else []
  | _ => []

/-- **The leases handed out to a consumer** along a run, in order. -/
def handouts (name : ν) (as : List (Act ν κ μ)) : List (κ × ℕ) := as.flatMap (Act.grants name)

section Runs

variable {R : Rules ν μ} {B C D : Broker ν κ μ} {a : Act ν κ μ} {as bs : List (Act ν κ μ)}

omit [DecidableEq κ] in
@[simp] theorem handouts_append (name : ν) (as bs : List (Act ν κ μ)) :
    handouts name (as ++ bs) = handouts name as ++ handouts name bs :=
  List.flatMap_append

omit [DecidableEq κ] in
/-- What the events of one ledger hand out. -/
theorem handouts_move (name : ν) (es : List (Event κ)) :
    handouts name (es.map (Act.move name) : List (Act ν κ μ)) = grants es := by
  induction es with
  | nil => rfl
  | cons e es ih =>
    rw [List.map_cons, handouts, List.flatMap_cons, ← handouts, ih]
    cases e with
    | grant k i => simp [Act.grants, grants]
    | _ => rfl

theorem Runs.single (h : Step R B a C) : Runs R B [a] C := .cons h (.nil C)

theorem Runs.append (h : Runs R B as C) (h' : Runs R C bs D) : Runs R B (as ++ bs) D := by
  induction h with
  | nil _ => exact h'
  | cons hstep _ ih => exact .cons hstep (ih h')

/-- **Appending messages**, one by one. -/
theorem Runs.appends {topic : ν} {log : List μ} (h : B.log topic = some log) (new : List μ) :
    Runs R B (new.map (Act.append topic)) (B.setLog topic (some (log ++ new))) := by
  induction new generalizing B log with
  | nil =>
    rw [List.append_nil, setLog_eq_self h]
    exact .nil B
  | cons message new ih =>
    refine .cons (.append message h) ?_
    have hrest := ih (B := B.setLog topic (some (log ++ [message]))) (setLog_self ..)
    simpa using hrest

/-- **A history of a ledger** is a run of its consumer. -/
theorem Runs.of_trace {G : Ledger κ → Event κ → Prop} {name : ν} {c : Consumer ν κ}
    {L M : Ledger κ} {es : List (Event κ)} (h : Trace G L es M)
    (hc : B.consumer name = some { c with ledger := L })
    (hG : ∀ L e, G L e → B.Permits R { c with ledger := L } e) :
    Runs R B (es.map (Act.move name)) (B.setConsumer name (some { c with ledger := M })) := by
  induction h generalizing B with
  | nil L =>
    rw [setConsumer_eq_self hc]
    exact .nil B
  | @cons L N M e es hmove hg _ ih =>
    refine .cons (.move hc hmove (hG L e hg)) ?_
    have hrest := ih (B := B.setConsumer name (some { c with ledger := N })) (setConsumer_self ..)
      hG
    simpa using hrest

end Runs

end Broker

end Lib
