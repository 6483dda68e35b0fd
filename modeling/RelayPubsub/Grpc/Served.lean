import RelayPubsub.Grpc.Stream
import RelayPubsub.Memory.Accounted

/-!
# A stream on the store

The task of a streaming pull, on the in-memory backend. A turn of its loop on a frame
may make several calls of the backend, and between any two of them other clients may
call; so the task goes here from one wait to the next (`RelayPubsub.Grpc.Waiting`), and a
run is any interleaving of that with calls of others (`RelayPubsub.Grpc.Serving`).
Whenever the loop is back at its `select!`, the task is one that
`RelayPubsub.Grpc.Task.step` has made (`RelayPubsub.Grpc.exists_turns`): the answers it
got for a frame are those of the store at the times of its calls.

Nothing is lost on the way to the client (`RelayPubsub.Grpc.stream_accounted`).

| what | where it is |
|---|---|
| pulled | sent, in order; the last batch of a stream that has ended may be missing |
| acknowledged by the task | named by a frame of the client |
| taken, and neither acked nor named | leased, or waiting to be delivered again |
-/

namespace RelayPubsub.Grpc

open Lib Memory

/-! ### The task, from one wait to the next -/

/-- **What the task waits for.** -/
inductive Waiting where
  /-- A frame or a tick. -/
  | select
  /-- The acknowledgement of these ids; these changes of deadlines come next. -/
  | acknowledging (ackIds : List Text) (deadlines : List (Text × Int32))
  /-- The first of these changes of deadlines. -/
  | modifying (deadlines : List (Text × Int32))

/-- **The store, the task, and what has happened**: the calls of the backend, by whomever;
the frames taken, each with the subscription it is for; and the deliveries pulled, with
theirs. -/
structure Serving where
  store : State := {}
  task : Task := {}
  waiting : Waiting := .select
  calls : List Step := []
  taken : List (Text × Frame) := []
  pulled : List (Text × List Delivery) := []

/-- What happens next: another client calls the backend, the loop takes one of the events
it waits for, or the task makes the call it is at. -/
inductive StreamTurn where
  | call (s : Step)
  | frame (frame : Frame)
  | closed
  | failed (status : Status)
  | tick (env : Env) (receives : Bool)
  | goOn (env : Env)

namespace Serving

/-- The loop is at its `select!`. -/
def idle (w : Serving) : Bool :=
  match w.waiting with
  | .select => w.task.running
  | _ => false

variable (serde : SerdeJson) (auth : Option AuthContext)

/-- A call of the backend. -/
def call (w : Serving) (s : Step) : Serving :=
  { w with store := exec serde w.store s, calls := w.calls ++ [s] }

/-- A call of the backend by the task, and how the task goes on after its answer. -/
def await (w : Serving) (c : BackendCall) (env : Env) (answer : Except BackendError Unit)
    (waiting : Waiting) : Serving :=
  match answer with
  | .ok () => { w.call serde ⟨c, env⟩ with task := w.task.call c, waiting }
  | .error e =>
    { w.call serde ⟨c, env⟩ with
      task := (w.task.call c).fail (backendStatus e)
      waiting := .select }

/-- The loop takes a frame. -/
def take (w : Serving) (f : Frame) : Serving :=
  let t := w.task.bind f
  let w := { w with task := t, taken := w.taken ++ [(t.subscription, f)] }
  if t.subscription = [] then w
  else
    match t.check auth with
    | .error status => { w with task := t.fail status }
    | .ok () =>
      let deadlines := f.modifyDeadlineAckIds.zip f.modifyDeadlineSeconds
      { w with
        task := { t with authorized := true }
        waiting := if f.ackIds = [] then .modifying deadlines
          else .acknowledging f.ackIds deadlines }

/-- The task makes the call it is at. -/
def goOn (w : Serving) (env : Env) : Serving :=
  match w.waiting with
  | .select => w
  | .acknowledging ackIds deadlines =>
    w.await serde (.acknowledge w.task.subscription ackIds) env
      (Memory.acknowledge env w.store w.task.subscription ackIds).1 (.modifying deadlines)
  | .modifying [] => { w with waiting := .select }
  | .modifying ((ackId, deadline) :: rest) =>
    w.await serde (.modifyAckDeadline w.task.subscription [ackId] (u32OfInt32 0 deadline)) env
      (Memory.modifyAckDeadline env w.store w.task.subscription [ackId] (u32OfInt32 0 deadline)).1
      (.modifying rest)

/-- The batch that an answer brings. -/
def batch (name : Text) : Except BackendError (List Delivery) → List (Text × List Delivery)
  | .ok (d :: ds) => [(name, d :: ds)]
  | _ => []

/-- The loop takes a tick: it pulls, and sends what it has pulled. A panic ends the task. -/
def tick (w : Serving) (env : Env) (receives : Bool) : Serving :=
  if w.task.subscription ≠ [] ∧ w.task.authorized then
    let c : BackendCall := .pull w.task.subscription w.task.batchSize
    match (Memory.pull env w.store w.task.subscription w.task.batchSize).1 with
    | .panicked =>
      { w.call serde ⟨c, env⟩ with task := { w.task.call c with running := false } }
    | .returned answer =>
      { w.call serde ⟨c, env⟩ with
        task := w.task.onTick answer receives
        pulled := w.pulled ++ batch w.task.subscription answer }
  else w

/-- **What happens to the store and the task.** -/
def step (w : Serving) : StreamTurn → Serving
  | .call s => w.call serde s
  | .frame f => if w.idle then w.take auth f else w
  | .closed => if w.idle then { w with task := { w.task with running := false } } else w
  | .failed status => if w.idle then { w with task := w.task.fail status } else w
  | .tick env receives => if w.idle then w.tick serde env receives else w
  | .goOn env => w.goOn serde env

section Step

variable {serde : SerdeJson} {auth : Option AuthContext} {w : Serving}

/-! ### The loop is that of the task -/

/-- **The turn the task is in**, after some turns that have made it `t`: whatever answers
the rest of its calls will get, the turn ends as `RelayPubsub.Grpc.Task.step` says. -/
def Underway (auth : Option AuthContext) (w : Serving) (t : Task) : Prop :=
  match w.waiting with
  | .select => w.task = t
  | .acknowledging ackIds deadlines =>
    ∃ f, ∀ modified,
      t.step auth (.frame f (.ok ()) modified) =
          Task.modifyDeadlines modified 0 deadlines
            (w.task.call (.acknowledge w.task.subscription ackIds)) ∧
        ∀ e, t.step auth (.frame f (.error e) modified) =
          (w.task.call (.acknowledge w.task.subscription ackIds)).fail (backendStatus e)
  | .modifying deadlines =>
    ∃ f acknowledged n, ∃ answers : ℕ → Except BackendError Unit, ∀ modified,
      (∀ k < n, modified k = answers k) →
        t.step auth (.frame f acknowledged modified) =
          Task.modifyDeadlines modified n deadlines w.task

/-- The task is one that some turns have made, or is in a turn after them. -/
def Loops (auth : Option AuthContext) (w : Serving) : Prop :=
  ∃ past, w.Underway auth (Machine.run (Task.step auth) {} past)

/-- The turn of the task has ended. -/
theorem loops_of_step (past : List Event) (e : Event) (hwaiting : w.waiting = .select)
    (h : w.task = (Machine.run (Task.step auth) {} past).step auth e) : w.Loops auth := by
  refine ⟨past ++ [e], ?_⟩
  rw [Underway, hwaiting, Machine.run_concat]
  exact h

theorem idle_iff : w.idle = true ↔ w.waiting = .select ∧ w.task.running = true := by
  unfold idle
  rcases w.waiting <;> simp

/-- Between two turns the task is one that some turns have made. -/
theorem Loops.task_eq (h : w.Loops auth) (hwaiting : w.waiting = .select) :
    ∃ past, w.task = Machine.run (Task.step auth) {} past := by
  obtain ⟨past, hpast⟩ := h
  rw [Underway, hwaiting] at hpast
  exact ⟨past, hpast⟩

/-- **A turn that makes one call at most** is one step here too. -/
theorem Loops.turn (h : w.Loops auth) (hidle : w.idle = true) (e : Event) {w' : Serving}
    (hwaiting : w'.waiting = .select) (htask : w'.task = w.task.step auth e) : w'.Loops auth := by
  obtain ⟨past, hpast⟩ := h.task_eq (idle_iff.mp hidle).1
  rw [hpast] at htask
  exact loops_of_step past e hwaiting htask

theorem Loops.take (h : w.Loops auth) (hidle : w.idle = true) (f : Frame) :
    (w.take auth f).Loops auth := by
  obtain ⟨hwaiting, hrun⟩ := idle_iff.mp hidle
  have hstep : ∀ acknowledged modified, w.task.step auth (.frame f acknowledged modified) =
      w.task.onFrame auth f acknowledged modified := fun _ _ => if_pos hrun
  unfold Serving.take
  dsimp only
  split
  · rename_i hnone
    refine h.turn hidle (.frame f (.ok ()) fun _ => .ok ()) hwaiting ?_
    rw [hstep, Task.onFrame]
    exact (if_pos hnone).symm
  · rename_i hsome
    rcases hcheck : (w.task.bind f).check auth with status | u
    · refine h.turn hidle (.frame f (.ok ()) fun _ => .ok ()) hwaiting ?_
      rw [hstep, Task.onFrame]
      simp only [if_neg hsome, hcheck]
    · -- the calls of the turn are still to come
      have hturn : ∀ acknowledged modified, w.task.onFrame auth f acknowledged modified =
          if (Task.acknowledge { w.task.bind f with authorized := true } f acknowledged).running
          then Task.modifyDeadlines modified 0 (f.modifyDeadlineAckIds.zip f.modifyDeadlineSeconds)
            (Task.acknowledge { w.task.bind f with authorized := true } f acknowledged)
          else Task.acknowledge { w.task.bind f with authorized := true } f acknowledged := by
        intro acknowledged modified
        rw [Task.onFrame]
        simp only [if_neg hsome, hcheck]
      obtain ⟨past, hpast⟩ := h.task_eq hwaiting
      refine ⟨past, ?_⟩
      rw [← hpast]
      unfold Underway
      dsimp only
      by_cases hids : f.ackIds = []
      · simp only [if_pos hids]
        refine ⟨f, .ok (), 0, fun _ => .ok (), fun modified _ => ?_⟩
        rw [hstep, hturn, Task.acknowledge, if_pos hids]
        exact if_pos hrun
      · simp only [if_neg hids]
        refine ⟨f, fun modified => ⟨?_, fun e => ?_⟩⟩
        · rw [hstep, hturn, Task.acknowledge, if_neg hids]
          exact if_pos hrun
        · rw [hstep, hturn, Task.acknowledge, if_neg hids]
          exact if_neg (by simp [Task.fail])

theorem Loops.goOn (h : w.Loops auth) (env : Env) : (w.goOn serde env).Loops auth := by
  obtain ⟨past, hpast⟩ := h
  unfold Underway at hpast
  unfold Serving.goOn
  rcases hwaiting : w.waiting with - | ⟨ackIds, deadlines⟩ | deadlines
  · refine ⟨past, ?_⟩
    simp only [hwaiting] at hpast
    simpa only [Underway, hwaiting] using hpast
  · simp only [hwaiting] at hpast
    obtain ⟨f, hf⟩ := hpast
    unfold await
    dsimp only
    split
    · refine ⟨past, f, .ok (), 0, fun _ => .ok (), fun modified _ => ?_⟩
      exact (hf modified).1
    · rename_i e _
      exact loops_of_step past (.frame f (.error e) fun _ => .ok ()) rfl
        ((hf fun _ => .ok ()).2 e).symm
  · simp only [hwaiting] at hpast
    obtain ⟨f, acknowledged, n, answers, hf⟩ := hpast
    rcases deadlines with - | ⟨⟨ackId, deadline⟩, rest⟩
    · refine loops_of_step past (.frame f acknowledged answers) rfl ?_
      exact (hf answers fun _ _ => rfl).symm
    · dsimp only
      unfold await
      split
      · -- the answers of the turn are those so far, and this one
        refine ⟨past, f, acknowledged, n + 1, fun k => if k < n then answers k else .ok (),
          fun modified hsame => ?_⟩
        have hok : modified n = .ok () := (hsame n (Nat.lt_succ_self n)).trans (if_neg (by omega))
        rw [hf modified fun k hk => (hsame k (by omega)).trans (if_pos hk), Task.modifyDeadlines]
        simp only [hok]
      · rename_i e _
        refine loops_of_step past
          (.frame f acknowledged fun k => if k < n then answers k else .error e) rfl ?_
        rw [hf _ fun k hk => if_pos hk, Task.modifyDeadlines]
        simp

theorem Loops.tick (h : w.Loops auth) (hidle : w.idle = true) (env : Env) (receives : Bool) :
    (w.tick serde env receives).Loops auth := by
  obtain ⟨hwaiting, hrun⟩ := idle_iff.mp hidle
  unfold Serving.tick
  split
  · rename_i hbound
    have hstep : ∀ answer receives, w.task.step auth (.tick answer receives) =
        w.task.onTick answer receives := fun _ _ => if_pos hrun
    dsimp only
    split
    · -- it is as if something had been pulled, and nobody received it
      let found : Delivery := ⟨[], ⟨[], [], ∅, [], 0⟩, 0⟩
      refine h.turn hidle (.tick (.ok [found]) false) hwaiting ?_
      rw [hstep, Task.onTick, if_pos hbound]
      rfl
    · rename_i answer _
      exact h.turn hidle (.tick answer receives) hwaiting (hstep answer receives).symm
  · exact h

/-- **One step keeps the loop that of the task.** -/
theorem Loops.step (h : w.Loops auth) (turn : StreamTurn) :
    (w.step serde auth turn).Loops auth := by
  cases turn with
  | call s => exact h
  | frame f =>
    unfold Serving.step
    dsimp only
    split
    · exact h.take ‹_› f
    · exact h
  | closed =>
    unfold Serving.step
    dsimp only
    split
    · rename_i hidle
      obtain ⟨hwaiting, hrun⟩ := idle_iff.mp hidle
      exact h.turn hidle .closed hwaiting (if_pos hrun).symm
    · exact h
  | failed status =>
    unfold Serving.step
    dsimp only
    split
    · rename_i hidle
      obtain ⟨hwaiting, hrun⟩ := idle_iff.mp hidle
      exact h.turn hidle (.failed status) hwaiting (if_pos hrun).symm
    · exact h
  | tick env receives =>
    unfold Serving.step
    dsimp only
    split
    · exact h.tick ‹_› env receives
    · exact h
  | goOn env => exact h.goOn env

/-! ### What the task has done -/

/-- What has been sent to the client. -/
def delivered (w : Serving) : List (List Delivery) := w.task.sent.filterMap Except.toOption

/-- **What the task maintains.** `others` are the calls of other clients, `frames` the frames
of its own. -/
structure Sound (serde : SerdeJson) (others : Step → Prop) (frames : Frame → Prop)
    (w : Serving) : Prop where
  store : w.store = stateAfter serde w.calls
  taken : ∀ x ∈ w.taken, frames x.2
  /-- What it is to acknowledge a frame has named. -/
  waiting : ∀ ackIds deadlines, w.waiting = .acknowledging ackIds deadlines →
    ∃ f, (w.task.subscription, f) ∈ w.taken ∧ f.ackIds = ackIds
  acks : ∀ s ∈ w.calls, ∀ name ackIds, s.call = .acknowledge name ackIds →
    others s ∨ ∃ f, (name, f) ∈ w.taken ∧ f.ackIds = ackIds
  pulled : ∀ x ∈ w.pulled, ∀ d ∈ x.2, ∃ i, HandedOut serde w.calls x.1 d i
  /-- What it has pulled it has sent, unless it has ended. -/
  sent : ∃ lost, w.pulled.map Prod.snd = w.delivered ++ lost ∧
    (lost = [] ∨ w.task.running = false ∧ lost.length = 1)

section Sound

variable {others : Step → Prop} {frames : Frame → Prop}

theorem delivered_fail (t : Task) (status : Status) :
    (t.fail status).sent.filterMap Except.toOption = t.sent.filterMap Except.toOption := by
  simp [Task.fail, Except.toOption]

/-- A call of the backend, of another client or of the task. -/
theorem Sound.call (h : w.Sound serde others frames) {s : Step}
    (hs : ∀ name ackIds, s.call = .acknowledge name ackIds →
      others s ∨ ∃ f, (name, f) ∈ w.taken ∧ f.ackIds = ackIds) :
    (w.call serde s).Sound serde others frames where
  store := by
    show exec serde w.store s = stateAfter serde (w.calls ++ [s])
    rw [stateAfter_concat, h.store]
  taken := h.taken
  waiting := h.waiting
  acks := by
    intro t ht name ackIds hcall
    rcases List.mem_append.mp ht with ht | ht
    · exact h.acks t ht name ackIds hcall
    · obtain rfl := List.mem_singleton.mp ht
      exact hs name ackIds hcall
  pulled := by
    intro x hx d hd
    obtain ⟨i, hi⟩ := h.pulled x hx d hd
    exact ⟨i, hi.mono (List.prefix_append _ _)⟩
  sent := h.sent

/-- The task changes, and what it has sent does not. -/
theorem Sound.goOn_task (h : w.Sound serde others frames) {task : Task} {waiting : Waiting}
    (hwaiting : ∀ ackIds deadlines, waiting ≠ .acknowledging ackIds deadlines)
    (hsent : task.sent.filterMap Except.toOption = w.delivered)
    (hrun : w.task.running = false → task.running = false) :
    ({ w with task, waiting } : Serving).Sound serde others frames where
  store := h.store
  taken := h.taken
  waiting ackIds deadlines heq := absurd heq (hwaiting ackIds deadlines)
  acks := h.acks
  pulled := h.pulled
  sent := by
    obtain ⟨lost, hlost, hend⟩ := h.sent
    exact ⟨lost, hlost.trans (congrArg (· ++ lost) hsent.symm),
      hend.imp_right fun hend => ⟨hrun hend.1, hend.2⟩⟩

theorem Sound.await (h : w.Sound serde others frames) {c : BackendCall} {env : Env}
    {answer : Except BackendError Unit} {waiting : Waiting}
    (hc : ∀ name ackIds, c = .acknowledge name ackIds →
      ∃ f, (name, f) ∈ w.taken ∧ f.ackIds = ackIds)
    (hwaiting : ∀ ackIds deadlines, waiting ≠ .acknowledging ackIds deadlines) :
    (w.await serde c env answer waiting).Sound serde others frames := by
  have hcalled := h.call (s := ⟨c, env⟩) fun name ackIds hcall => Or.inr (hc name ackIds hcall)
  unfold Serving.await
  split
  · exact hcalled.goOn_task hwaiting rfl id
  · exact hcalled.goOn_task (by simp) (delivered_fail _ _) fun _ => rfl

theorem Sound.take (h : w.Sound serde others frames) (hidle : w.idle = true) {f : Frame}
    (hf : frames f) : (w.take auth f).Sound serde others frames := by
  obtain ⟨hwaiting, -⟩ := idle_iff.mp hidle
  -- the frame is taken, whatever becomes of it
  have hbound : ({ w with
      task := w.task.bind f
      taken := w.taken ++ [((w.task.bind f).subscription, f)] } : Serving).Sound serde others
        frames := by
    refine ⟨h.store, fun x hx => ?_, fun ackIds deadlines heq => ?_,
      fun s hs name ackIds hcall => ?_, h.pulled, h.sent⟩
    · rcases List.mem_append.mp hx with hx | hx
      · exact h.taken x hx
      · rwa [List.mem_singleton.mp hx]
    · exact absurd (hwaiting.symm.trans heq) (by simp)
    · refine (h.acks s hs name ackIds hcall).imp_right ?_
      rintro ⟨g, hg, hids⟩
      exact ⟨g, List.mem_append_left _ hg, hids⟩
  unfold Serving.take
  dsimp only
  split
  · exact hbound
  split
  · exact hbound.goOn_task (by simp [hwaiting]) (delivered_fail _ _) fun _ => rfl
  · by_cases hids : f.ackIds = []
    · rw [if_pos hids]
      exact hbound.goOn_task (by simp) rfl id
    · rw [if_neg hids]
      refine ⟨hbound.store, hbound.taken, fun ackIds deadlines heq => ?_, hbound.acks,
        hbound.pulled, hbound.sent⟩
      obtain ⟨rfl, -⟩ := Waiting.acknowledging.inj heq
      exact ⟨f, List.mem_append_right _ (List.mem_singleton_self _), rfl⟩

theorem Sound.goOn (h : w.Sound serde others frames) (env : Env) :
    (w.goOn serde env).Sound serde others frames := by
  unfold Serving.goOn
  rcases hwaiting : w.waiting with - | ⟨ackIds, deadlines⟩ | deadlines
  · exact h
  · refine h.await (fun name ids hcall => ?_) (by simp)
    obtain ⟨rfl, rfl⟩ := BackendCall.acknowledge.inj hcall
    exact h.waiting _ deadlines hwaiting
  · rcases deadlines with - | ⟨⟨ackId, deadline⟩, rest⟩
    · exact h.goOn_task (by simp) rfl id
    · exact h.await (by simp) (by simp)

/-- A tick sends what it has pulled, unless the task ends with it. -/
theorem sent_onTick {t : Task} (hbound : t.subscription ≠ [] ∧ t.authorized = true)
    (answer : Except BackendError (List Delivery)) (receives : Bool) :
    ∃ lost, t.sent.filterMap Except.toOption ++ (batch t.subscription answer).map Prod.snd =
        (t.onTick answer receives).sent.filterMap Except.toOption ++ lost ∧
      (lost = [] ∨ (t.onTick answer receives).running = false ∧ lost.length = 1) := by
  unfold Task.onTick
  rw [if_pos hbound]
  rcases answer with e | (- | ⟨d, ds⟩)
  · refine ⟨[], ?_, Or.inl rfl⟩
    simp [batch, Task.call, delivered_fail]
  · exact ⟨[], by simp [batch, Task.call], Or.inl rfl⟩
  · cases receives with
    | true => exact ⟨[], by simp [batch, Task.call, Except.toOption], Or.inl rfl⟩
    | false => exact ⟨[d :: ds], by simp [batch, Task.call], Or.inr ⟨rfl, rfl⟩⟩

theorem Sound.tick (h : w.Sound serde others frames) (hidle : w.idle = true) (env : Env)
    (receives : Bool) : (w.tick serde env receives).Sound serde others frames := by
  obtain ⟨hwaiting, hrun⟩ := idle_iff.mp hidle
  unfold Serving.tick
  split
  · rename_i hbound
    have hcalled := h.call (s := ⟨.pull w.task.subscription w.task.batchSize, env⟩) (by simp)
    dsimp only
    split
    · exact hcalled.goOn_task (by simp [Serving.call, hwaiting]) rfl fun _ => rfl
    · rename_i answer hanswer
      refine ⟨hcalled.store, hcalled.taken, ?_, hcalled.acks, fun x hx d hd => ?_, ?_⟩
      · exact fun ackIds deadlines heq => absurd (hwaiting.symm.trans heq) (by simp)
      · rcases List.mem_append.mp hx with hx | hx
        · exact hcalled.pulled x hx d hd
        · rcases answer with e | (- | ⟨d', ds⟩)
          · simp [batch] at hx
          · simp [batch] at hx
          · obtain rfl := List.mem_singleton.mp hx
            rw [h.store] at hanswer
            exact handedOut_of_pull hanswer d hd
      · obtain ⟨lost, hlost, hend⟩ := h.sent
        have hnone : lost = [] := hend.resolve_right fun hend => by simp [hrun] at hend
        rw [hnone, List.append_nil] at hlost
        obtain ⟨last, hlast, hlastend⟩ := sent_onTick hbound answer receives
        refine ⟨last, ?_, hlastend⟩
        show (w.pulled ++ batch w.task.subscription answer).map Prod.snd = _
        rw [List.map_append, hlost]
        exact hlast
  · exact h

/-- **One step keeps what the task maintains.** -/
theorem Sound.step (h : w.Sound serde others frames) (turn : StreamTurn)
    (hcall : ∀ s, turn = .call s → others s) (hframe : ∀ f, turn = .frame f → frames f) :
    (w.step serde auth turn).Sound serde others frames := by
  cases turn with
  | call s => exact h.call fun _ _ _ => Or.inl (hcall s rfl)
  | frame f =>
    unfold Serving.step
    dsimp only
    split
    · exact h.take ‹_› (hframe f rfl)
    · exact h
  | closed =>
    unfold Serving.step
    dsimp only
    split
    · rename_i hidle
      exact h.goOn_task (by simp [(idle_iff.mp hidle).1]) rfl fun _ => rfl
    · exact h
  | failed status =>
    unfold Serving.step
    dsimp only
    split
    · rename_i hidle
      exact h.goOn_task (by simp [(idle_iff.mp hidle).1]) (delivered_fail _ _) fun _ => rfl
    · exact h
  | tick env receives =>
    unfold Serving.step
    dsimp only
    split
    · exact h.tick ‹_› env receives
    · exact h
  | goOn env => exact h.goOn env

end Sound

end Step

end Serving

/-! ### Runs -/

/-- What a turn reads from outside, if it calls the backend. -/
def StreamTurn.env : StreamTurn → Option Env
  | .call s => some s.env
  | .tick env _ | .goOn env => some env
  | _ => none

/-- The two turns draw no random identifier in common. -/
def StreamTurn.Apart (a b : StreamTurn) : Prop :=
  ∀ x ∈ a.env, ∀ y ∈ b.env, ∀ m n, (x.uuid m).text ≠ (y.uuid n).text

/-- **A run of a stream**: any interleaving of its turns with calls of other clients, no
random identifier drawn twice. -/
structure StreamRun where
  turns : List StreamTurn
  fresh : turns.Pairwise StreamTurn.Apart

/-- The store and the task after some turns, from the empty store. -/
def servedAfter (serde : SerdeJson) (auth : Option AuthContext) (turns : List StreamTurn) :
    Serving :=
  Machine.run (Serving.step serde auth) {} turns

section Run

variable {serde : SerdeJson} {auth : Option AuthContext}

theorem servedAfter_concat (turns : List StreamTurn) (turn : StreamTurn) :
    servedAfter serde auth (turns ++ [turn]) =
      (servedAfter serde auth turns).step serde auth turn :=
  Machine.run_concat _ _ _ _

/-- A turn makes one call at most. -/
theorem calls_serving_step (w : Serving) (turn : StreamTurn) :
    (w.step serde auth turn).calls = w.calls ∨
      ∃ s : Step, turn.env = some s.env ∧ (w.step serde auth turn).calls = w.calls ++ [s] := by
  have hawait : ∀ c env answer waiting,
      (w.await serde c env answer waiting).calls = w.calls ++ [⟨c, env⟩] := by
    intro c env answer waiting
    unfold Serving.await
    split <;> rfl
  cases turn with
  | call s => exact Or.inr ⟨s, rfl, rfl⟩
  | frame f =>
    left
    simp only [Serving.step, Serving.take]
    split
    · split
      · rfl
      · split <;> rfl
    · rfl
  | closed =>
    left
    simp only [Serving.step]
    split <;> rfl
  | failed status =>
    left
    simp only [Serving.step]
    split <;> rfl
  | tick env receives =>
    simp only [Serving.step, Serving.tick]
    split
    · split
      · right
        split <;> exact ⟨_, rfl, rfl⟩
      · exact Or.inl rfl
    · exact Or.inl rfl
  | goOn env =>
    simp only [Serving.step, Serving.goOn]
    split
    · exact Or.inl rfl
    · exact Or.inr ⟨_, rfl, hawait _ _ _ _⟩
    · exact Or.inl rfl
    · exact Or.inr ⟨_, rfl, hawait _ _ _ _⟩

/-- The calls of a run draw what its turns draw. -/
theorem env_calls_served_sublist (turns : List StreamTurn) :
    ((servedAfter serde auth turns).calls.map (·.env)).Sublist
      (turns.filterMap StreamTurn.env) := by
  induction turns using List.reverseRecOn with
  | nil => exact List.Sublist.refl _
  | append_singleton turns turn ih =>
    rw [servedAfter_concat, List.filterMap_append]
    rcases @calls_serving_step serde auth (servedAfter serde auth turns) turn with
      hsame | ⟨s, henv, hmore⟩
    · rw [hsame]
      exact ih.trans (List.sublist_append_left _ _)
    · rw [hmore, List.map_append, List.map_singleton]
      refine ih.append ?_
      rw [List.filterMap_cons_some henv]
      exact List.Sublist.refl _

theorem fresh_calls_served {turns : List StreamTurn} (h : turns.Pairwise StreamTurn.Apart) :
    (servedAfter serde auth turns).calls.Pairwise Step.Apart := by
  have henvs : (turns.filterMap StreamTurn.env).Pairwise
      fun a b => ∀ m n, (a.uuid m).text ≠ (b.uuid n).text :=
    List.pairwise_filterMap.mpr (h.imp fun h x hx y hy => h x hx y hy)
  have hcalls := henvs.sublist (@env_calls_served_sublist serde auth turns)
  rwa [List.pairwise_map] at hcalls

/-- **Whenever the loop is at its `select!`, some turns have made its task.** -/
theorem exists_turns (turns : List StreamTurn)
    (h : (servedAfter serde auth turns).waiting = .select) :
    ∃ past, (servedAfter serde auth turns).task = Machine.run (Task.step auth) {} past := by
  have hloops : (servedAfter serde auth turns).Loops auth := by
    refine (Machine.always_of_step (P := fun w : Serving => w.Loops auth) ?_
      fun w turn _ hw => hw.step turn).last
    exact ⟨[], rfl⟩
  exact hloops.task_eq h

theorem sound_servedAfter (turns : List StreamTurn) :
    (servedAfter serde auth turns).Sound serde (fun s => .call s ∈ turns)
      fun f => .frame f ∈ turns := by
  refine (Machine.always_of_step (P := fun w : Serving =>
    w.Sound serde (fun s => .call s ∈ turns) fun f => .frame f ∈ turns) ?_
      fun w turn hturn h => ?_).last
  · exact ⟨rfl, by simp, by simp, by simp, by simp, [], rfl, Or.inl rfl⟩
  · exact h.step turn (fun s heq => heq ▸ hturn) fun f heq => heq ▸ hturn

/-- **The client has named the index** in a frame for the subscription: it is the index of
an ack id of the frame, which a pull handed out. -/
def NamedByClient (serde : SerdeJson) (w : Serving) (name : Text) (i : ℕ) : Prop :=
  ∃ f ackId, (name, f) ∈ w.taken ∧ ackId ∈ f.ackIds ∧
    (ackId, i) ∈ grantedAlong serde name {} w.calls

/-- **A stream loses nothing**, in any interleaving with calls of other clients. Every
batch it has pulled was handed out to it, and has been sent, in order, but for the last of
a stream that has ended. Where no other client acknowledges on a subscription, an index
that is acked was named by the client in a frame it has sent, or set aside by a pull; and
one that is not acked, but was taken since the cursor was last set, is leased or waits, or
was named by the client as well. -/
theorem stream_accounted (serde : SerdeJson) (auth : Option AuthContext) (r : StreamRun) :
    let w := servedAfter serde auth r.turns
    (w.waiting = .select → ∃ past, w.task = Machine.run (Task.step auth) {} past) ∧
    (∀ x ∈ w.taken, .frame x.2 ∈ r.turns) ∧
    (∀ x ∈ w.pulled, ∀ d ∈ x.2, ∃ i, HandedOut serde w.calls x.1 d i) ∧
    (∃ lost, w.pulled.map Prod.snd = w.delivered ++ lost ∧
      (lost = [] ∨ w.task.running = false ∧ lost.length = 1)) ∧
    ∀ name, (∀ s, .call s ∈ r.turns → ∀ ackIds, s.call ≠ .acknowledge name ackIds) →
      ∀ sub, w.store.subscriptions[name]? = some sub →
        (∀ i ∈ sub.acked, NamedByClient serde w name i ∨ PutAside serde w.calls name i) ∧
        ∀ i, (watch serde name w.calls).base ≤ i → i < sub.nextIndex → i ∉ sub.acked →
          sub.Leased i ∨ sub.Queued i ∨ NamedByClient serde w name i := by
  intro w
  have hsound : w.Sound serde _ _ := sound_servedAfter r.turns
  refine ⟨exists_turns r.turns, hsound.taken, hsound.pulled, hsound.sent,
    fun name hothers sub hsub => ?_⟩
  rw [hsound.store] at hsub
  refine accounted_of_acks (fresh_calls_served r.fresh) ?_ hsub
  intro past s hpre ackIds hcall ackId hmem i hi
  rcases hsound.acks s (hpre.subset (by simp)) name ackIds hcall with hother | ⟨f, hf, rfl⟩
  · exact absurd hcall (hothers s hother ackIds)
  · exact ⟨f, ackId, hf, hmem,
      grantedAlong_subset ((List.prefix_append past [s]).trans hpre) hi⟩

end Run

/-- A turn that calls the backend at the `k`-th instant. -/
def StreamTurn.numbered (turn : Env → StreamTurn) (k : ℕ) : StreamTurn :=
  turn (Step.numbered (0, .listPushSubscriptions) k).env

/-- A message is published, and a client streams its subscription: it is sent the message,
and the loop is back at its `select!`. -/
example :
    let turns : List (Env → StreamTurn) :=
      [fun env => .call ⟨.createTopic sampleTopic, env⟩,
        fun env => .call ⟨.createSubscription sampleSubscription, env⟩,
        fun env => .call ⟨.publish sampleTopic.name [Memory.sampleMessage ""], env⟩,
        fun _ => .frame { subscription := sampleSubscription.name }, .goOn,
        fun env => .tick env true]
    let w := servedAfter noJson none (turns.mapIdx fun k turn => .numbered turn k)
    (w.delivered.map List.length, w.idle, w.pulled.length) = ([1], true, 1) := by
  decide +kernel

end RelayPubsub.Grpc
