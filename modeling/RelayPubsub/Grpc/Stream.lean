import RelayPubsub.Grpc.Service
import RelayPubsub.Lib.Machine

/-!
# Streaming pull

The task that `streaming_pull` of `src/grpc.rs` spawns for a stream: a loop over
the frames of the client and the ticks of a timer. Its locals are the
subscription, the batch size, and whether the stream has been authorized
(`RelayPubsub.Grpc.Task`); what the rest of the system contributes – which event
comes next, how the backend answers, whether the client still listens – is part
of an event.

The task authorizes the subscription of the first frame that names one. A later
frame may name another, which is not looked at again; so the calls of the task
are on subscriptions the caller is allowed on, in every run, if every frame that
names a subscription in an authorized stream names such a one
(`RelayPubsub.Grpc.stream_confined`).
-/

namespace RelayPubsub.Grpc

open Lib

/-- `StreamingPullRequest`: a frame of the client. -/
structure Frame where
  subscription : Text := []
  ackIds : List Text := []
  modifyDeadlineSeconds : List Int32 := []
  modifyDeadlineAckIds : List Text := []
  maxOutstandingMessages : Int64 := 0

/-- What the loop waits for. -/
inductive Event where
  /-- A frame, and how the backend answers the calls made for it: the
  acknowledgement, and the `n`-th change of a deadline. -/
  | frame (frame : Frame) (acknowledged : Except BackendError Unit)
      (modified : ℕ → Except BackendError Unit)
  /-- The client has closed its side. -/
  | closed
  /-- The stream has broken. -/
  | failed (status : Status)
  /-- A tick of the timer, how the backend answers the pull made on it, and whether
  the client still receives. -/
  | tick (pulled : Except BackendError (List Delivery)) (receives : Bool)

/-- **The task of a stream**: its locals, whether it still runs, the calls of the
backend it has made, and what it has sent to the client. -/
structure Task where
  subscription : Text := []
  batchSize : UInt32 := 100
  authorized : Bool := false
  running : Bool := true
  calls : List BackendCall := []
  sent : List (Except Status (List Delivery)) := []

namespace Task

/-- Make a call. -/
def call (t : Task) (c : BackendCall) : Task := { t with calls := t.calls ++ [c] }

/-- Send a status, and end. -/
def fail (t : Task) (status : Status) : Task :=
  { t with running := false, sent := t.sent ++ [.error status] }

/-- What a frame sets: the subscription and the batch size, where it has them. -/
def bind (t : Task) (f : Frame) : Task :=
  { t with
    subscription := if f.subscription = [] then t.subscription else f.subscription
    batchSize := if 0 < f.maxOutstandingMessages then
        UInt32.ofInt (min f.maxOutstandingMessages.toInt 1000)
      else t.batchSize }

/-- The check of a stream that is not authorized yet. -/
def check (auth : Option AuthContext) (t : Task) : Except Status Unit :=
  if t.authorized then .ok ()
  else
    match auth with
    | none => .ok ()
    | some ctx => (authorizeResource ctx t.subscription).mapError fun e => ⟨.permissionDenied, e⟩

/-- The acknowledgement of a frame. -/
def acknowledge (t : Task) (f : Frame) (acknowledged : Except BackendError Unit) : Task :=
  if f.ackIds = [] then t
  else
    let t := t.call (.acknowledge t.subscription f.ackIds)
    match acknowledged with
    | .ok () => t
    | .error e => t.fail (backendStatus e)

/-- The changes of deadlines of a frame, one call each; the first that fails ends
the task. -/
def modifyDeadlines (modified : ℕ → Except BackendError Unit) :
    ℕ → List (Text × Int32) → Task → Task
  | _, [], t => t
  | n, (ackId, deadline) :: rest, t =>
    let t := t.call (.modifyAckDeadline t.subscription [ackId] (u32OfInt32 0 deadline))
    match modified n with
    | .ok () => modifyDeadlines modified (n + 1) rest t
    | .error e => t.fail (backendStatus e)

/-- The turn of the loop on a frame. -/
def onFrame (auth : Option AuthContext) (t : Task) (f : Frame)
    (acknowledged : Except BackendError Unit) (modified : ℕ → Except BackendError Unit) : Task :=
  let t := t.bind f
  if t.subscription = [] then t
  else
    match t.check auth with
    | .error status => t.fail status
    | .ok () =>
      let t := { t with authorized := true }
      let t := t.acknowledge f acknowledged
      if t.running then
        modifyDeadlines modified 0 (f.modifyDeadlineAckIds.zip f.modifyDeadlineSeconds) t
      else t

/-- The turn of the loop on a tick, which is waited for only in an authorized
stream. -/
def onTick (t : Task) (pulled : Except BackendError (List Delivery)) (receives : Bool) : Task :=
  if t.subscription ≠ [] ∧ t.authorized then
    let t := t.call (.pull t.subscription t.batchSize)
    match pulled with
    | .ok [] => t
    | .ok deliveries => { t with
        running := receives
        sent := if receives then t.sent ++ [.ok deliveries] else t.sent }
    | .error e => t.fail (backendStatus e)
  else t

/-- **One turn of the loop.** -/
def step (auth : Option AuthContext) (t : Task) (e : Event) : Task :=
  if t.running then
    match e with
    | .frame f acknowledged modified => t.onFrame auth f acknowledged modified
    | .closed => { t with running := false }
    | .failed status => t.fail status
    | .tick pulled receives => t.onTick pulled receives
  else t

/-- **Every call of the task is on a subscription the caller is allowed on.** -/
def Confined (ctx : AuthContext) (t : Task) : Prop :=
  ∀ c ∈ t.calls, ∃ subscription, c.target = some subscription ∧ Allowed ctx subscription

/-- A frame that names a subscription, in a stream that has been authorized, names
one the caller is allowed on. -/
def RebindsInside (ctx : AuthContext) (t : Task) (e : Event) : Prop :=
  ∀ f acknowledged modified, e = .frame f acknowledged modified → t.running = true →
    t.authorized = true → f.subscription ≠ [] → Allowed ctx f.subscription

/-- **What the loop maintains**: once it is authorized, the caller is allowed on
the subscription it holds. -/
structure Good (ctx : AuthContext) (t : Task) : Prop where
  bound : t.authorized = true → Allowed ctx t.subscription
  confined : t.Confined ctx

section Step

variable {ctx : AuthContext} {t : Task}

/-- A call on the subscription the task holds. -/
theorem Good.call (h : Good ctx t) (ha : t.authorized = true) {c : BackendCall}
    (hc : c.target = some t.subscription) : Good ctx (t.call c) where
  bound := h.bound
  confined c' hc' := by
    rcases List.mem_append.mp hc' with hc' | hc'
    · exact h.confined c' hc'
    · obtain rfl := List.mem_singleton.mp hc'
      exact ⟨t.subscription, hc, h.bound ha⟩

theorem Good.fail (h : Good ctx t) (status : Status) : Good ctx (t.fail status) :=
  ⟨h.bound, h.confined⟩

theorem Good.acknowledge (h : Good ctx t) (ha : t.authorized = true) (f : Frame)
    (acknowledged : Except BackendError Unit) : Good ctx (t.acknowledge f acknowledged) := by
  unfold Task.acknowledge
  split
  · exact h
  · have hcall := h.call ha (c := .acknowledge t.subscription f.ackIds) rfl
    dsimp only
    split
    · exact hcall
    · exact hcall.fail _

/-- An acknowledgement leaves the locals as they are. -/
@[simp] theorem acknowledge_locals (f : Frame) (acknowledged : Except BackendError Unit) :
    (t.acknowledge f acknowledged).subscription = t.subscription ∧
      (t.acknowledge f acknowledged).authorized = t.authorized := by
  unfold Task.acknowledge
  split
  · exact ⟨rfl, rfl⟩
  · dsimp only
    split <;> exact ⟨rfl, rfl⟩

theorem Good.modifyDeadlines (modified : ℕ → Except BackendError Unit)
    (pairs : List (Text × Int32)) :
    ∀ {n : ℕ} {t : Task}, Good ctx t → t.authorized = true →
      Good ctx (Task.modifyDeadlines modified n pairs t) := by
  induction pairs with
  | nil => exact fun h _ => h
  | cons pair rest ih =>
    intro n t h ha
    have hcall := h.call ha
      (c := .modifyAckDeadline t.subscription [pair.1] (u32OfInt32 0 pair.2)) rfl
    unfold Task.modifyDeadlines
    dsimp only
    split
    · exact ih hcall ha
    · exact hcall.fail _

/-- A stream that passes the check is one the caller is allowed on. -/
theorem allowed_of_check (hbound : t.authorized = true → Allowed ctx t.subscription)
    (h : t.check (some ctx) = .ok ()) : Allowed ctx t.subscription := by
  unfold check at h
  split at h
  · rename_i ha
    exact hbound ha
  · dsimp only at h
    unfold Allowed
    rcases hauth : authorizeResource ctx t.subscription with e | u
    · rw [hauth] at h
      cases h
    · rfl

/-- **One turn on a frame.** -/
theorem Good.onFrame (h : Good ctx t) (f : Frame) (acknowledged : Except BackendError Unit)
    (modified : ℕ → Except BackendError Unit)
    (hf : t.authorized = true → f.subscription ≠ [] → Allowed ctx f.subscription) :
    Good ctx (t.onFrame (some ctx) f acknowledged modified) := by
  have hbind : Good ctx (t.bind f) := by
    refine ⟨fun ha => ?_, h.confined⟩
    unfold Task.bind
    dsimp only
    split
    · exact h.bound ha
    · rename_i hne
      exact hf ha hne
  unfold Task.onFrame
  dsimp only
  split
  · exact hbind
  split
  · exact hbind.fail _
  rename_i hcheck
  have hallowed := allowed_of_check hbind.bound hcheck
  have hgood : Good ctx { t.bind f with authorized := true } := ⟨fun _ => hallowed, hbind.confined⟩
  have hack := hgood.acknowledge rfl f acknowledged
  split
  · exact hack.modifyDeadlines modified _ (acknowledge_locals f acknowledged).2
  · exact hack

/-- **One turn on a tick.** -/
theorem Good.onTick (h : Good ctx t) (pulled : Except BackendError (List Delivery))
    (receives : Bool) : Good ctx (t.onTick pulled receives) := by
  unfold Task.onTick
  split
  · rename_i hc
    have hcall := h.call hc.2 (c := .pull t.subscription t.batchSize) rfl
    dsimp only
    split
    · exact hcall
    · exact ⟨hcall.bound, hcall.confined⟩
    · exact hcall.fail _
  · exact h

theorem Good.step (h : Good ctx t) {e : Event} (he : RebindsInside ctx t e) :
    Good ctx (t.step (some ctx) e) := by
  unfold Task.step
  split
  · rename_i hrun
    cases e with
    | frame f acknowledged modified =>
      exact h.onFrame f acknowledged modified (he f acknowledged modified rfl hrun)
    | closed => exact ⟨h.bound, h.confined⟩
    | failed status => exact h.fail status
    | tick pulled receives => exact h.onTick pulled receives
  · exact h

end Step

end Task

/-- **A stream stays on subscriptions the caller is allowed on**, in every run in
which no frame of an authorized stream names another. -/
theorem stream_confined {ctx : AuthContext} {events : List Event}
    (h : Machine.Guarded (Task.step (some ctx)) (Task.RebindsInside ctx) {} events) :
    Machine.Always (Task.step (some ctx)) (Task.Confined ctx) {} events := by
  have hgood : ∀ pre, pre <+: events →
      Task.Good ctx (Machine.run (Task.step (some ctx)) {} pre) :=
    Machine.invariant (P := fun _ t => Task.Good ctx t) ⟨nofun, nofun⟩
      fun pre e hpre ht => ht.step (h pre e hpre)
  exact fun pre hpre => (hgood pre hpre).confined

/-- A stream that names one subscription, and is ticked. -/
theorem stream_of_one_confined :
    Machine.Always (Task.step (some ⟨"caller", [projectName "a"]⟩))
      (Task.Confined ⟨"caller", [projectName "a"]⟩) {}
      [.frame { subscription := "projects/a/subscriptions/s" } (.ok ()) fun _ => .ok (),
        .tick (.ok []) true] := by
  refine stream_confined fun pre e hpre => ?_
  rintro f acknowledged modified rfl - - -
  rcases List.mem_cons.mp (hpre.subset (List.mem_append_right pre List.mem_cons_self)) with h | h
  · cases h
    decide +kernel
  · cases List.mem_singleton.mp h

/-- **A stream that is bound to another subscription**: a caller allowed in one
project only pulls from a subscription of another. -/
theorem stream_leaves_project :
    ¬Machine.Always (Task.step (some ⟨"caller", [projectName "a"]⟩))
      (Task.Confined ⟨"caller", [projectName "a"]⟩) {}
      [.frame { subscription := "projects/a/subscriptions/s" } (.ok ()) fun _ => .ok (),
        .frame { subscription := "projects/b/subscriptions/s" } (.ok ()) fun _ => .ok (),
        .tick (.ok []) true] := by
  intro h
  obtain ⟨c, hc, htarget⟩ : ∃ c ∈ (Machine.run (Task.step (some ⟨"caller", [projectName "a"]⟩)) {}
      [.frame { subscription := "projects/a/subscriptions/s" } (.ok ()) fun _ => .ok (),
        .frame { subscription := "projects/b/subscriptions/s" } (.ok ()) fun _ => .ok (),
        .tick (.ok []) true]).calls, c.target = some "projects/b/subscriptions/s" := by
    decide +kernel
  obtain ⟨subscription, hsub, hallowed⟩ := h.last c hc
  obtain rfl := Option.some.inj (htarget.symm.trans hsub)
  exact absurd hallowed (by decide +kernel)

end RelayPubsub.Grpc
