import RelayPubsub.Memory.Durable

/-!
# Crashes and restarts

A backend that crashes and is started again, any number of times, on the files the one
before it has left (`RelayPubsub.Memory.Lives`). Of every life a first part of its calls
survives, with all that succeeded (`RelayPubsub.Memory.Survives`), and what the next backend
loads is the state of one uninterrupted run of what has survived so far
(`RelayPubsub.Memory.restarts_run`). So what holds of every run of the store holds across
restarts.

Here the file operations of the calls succeed, and the text of a state is that of one of its
documents, whatever the order in which the hash maps are iterated
(`RelayPubsub.Memory.Writer`).
-/

namespace RelayPubsub.Memory

open Lib

variable {dates : Dates} {w : Writer dates}

/-! ### Lives -/

/-- **A backend from its start to a crash**: the calls it has answered, the call it is at,
and the disk it leaves. -/
structure Life where
  answered : List Step
  last : Step
  disk : Disk

/-- The calls of a life. -/
def Life.calls (l : Life) : List Step := l.answered ++ [l.last]

variable (serde : SerdeJson)

/-- **One backend after the other**, from one disk to another. -/
inductive Lives (codec : Codec) : Disk → List Life → Disk → Prop
  | nil (d : Disk) : Lives codec d [] d
  | cons {d d' : Disk} {l : Life} {ls : List Life} {st : State}
      (hload : withPersistence codec d = .ok st)
      (hcrash : Crash serde codec (Machine.run (Stored.step serde codec) ⟨st, d⟩ l.answered) l.last
        l.disk)
      (hrest : Lives codec l.disk ls d') : Lives codec d (l :: ls) d'

/-- **What may be left of some lives**: a first part of the calls of each. -/
inductive Remains : List Life → List Step → Prop
  | nil : Remains [] []
  | cons {l : Life} {ls : List Life} {pre rest : List Step} (hpre : pre <+: l.calls)
      (hrest : Remains ls rest) : Remains (l :: ls) (pre ++ rest)

/-- **What survives of some lives**, from the state the first begins with: a first part of
the calls of each, in which every call is that succeeded. -/
inductive Survives : State → List Life → List Step → Prop
  | nil (st : State) : Survives st [] []
  | cons {st : State} {l : Life} {ls : List Life} {pre rest : List Step} (hpre : pre <+: l.calls)
      (hdone : ∀ mid t, mid ++ [t] <+: l.answered →
        outcome serde (Machine.run (exec serde) st mid) t = some .done → mid ++ [t] <+: pre)
      (hrest : Survives (Machine.run (exec serde) st pre) ls rest) :
      Survives st (l :: ls) (pre ++ rest)

variable {serde} {codec : Codec} {st st₀ : State} {d d₀ : Disk} {l : Life} {ls : List Life}

/-- What a crash leaves recovers the life it ends. -/
theorem recovers_crashed (hinit : withPersistence codec d₀ = .ok st)
    (hfile : ∀ s ∈ l.calls, s.env.persistFault = none)
    (hcodec : ∀ pre, pre <+: l.calls →
      codec.fromStr (codec.toString (Machine.run (exec serde) st pre)) =
        .ok (Machine.run (exec serde) st pre))
    (hcrash : Crash serde codec (Machine.run (Stored.step serde codec) ⟨st, d₀⟩ l.answered) l.last
      l.disk) :
    Recovers serde codec st l.calls l.answered l.disk := by
  obtain ⟨hstate, pre, hpre, hload, hdone⟩ := recovers_run hinit
    (fun t ht => hfile t (List.mem_append_left _ ht))
    fun pre hpre => hcodec pre (hpre.trans (List.prefix_append _ _))
  have hrec : Recovers serde codec st l.calls l.answered
      (Machine.run (Stored.step serde codec) ⟨st, d₀⟩ l.answered).disk :=
    ⟨pre, hpre.trans (List.prefix_append _ _), hload, hdone⟩
  have hlast : codec.fromStr (codec.toString (exec serde
      (Machine.run (Stored.step serde codec) ⟨st, d₀⟩ l.answered).state l.last)) =
        .ok (Machine.run (exec serde) st l.calls) := by
    have hall := hcodec l.calls (List.prefix_refl _)
    have hrun : Machine.run (exec serde) st l.calls =
        exec serde (Machine.run (exec serde) st l.answered) l.last := Machine.run_concat ..
    rw [hrun] at hall ⊢
    rwa [hstate]
  generalize hdisk : l.disk = d at hcrash
  cases hcrash with
  | idle => exact hrec
  | writing n _ => exact hrec.of_file_eq rfl
  | renamed _ => exact recovers_renamed _ hlast (List.prefix_append _ _)

/-- **Lives from any state on.** -/
theorem survives_lives (hlives : Lives serde codec d₀ ls d)
    (hinit : withPersistence codec d₀ = .ok st)
    (hfile : ∀ l ∈ ls, ∀ s ∈ l.calls, s.env.persistFault = none)
    (hcodec : ∀ ls', ls' <+: ls → ∀ steps, Remains ls' steps →
      codec.fromStr (codec.toString (Machine.run (exec serde) st steps)) =
        .ok (Machine.run (exec serde) st steps)) :
    ∃ steps, Survives serde st ls steps ∧
      withPersistence codec d = .ok (Machine.run (exec serde) st steps) := by
  induction hlives generalizing st with
  | nil d => exact ⟨[], .nil st, hinit⟩
  | @cons d d' l ls st' hload hcrash _ ih =>
    obtain rfl : st' = st := Except.ok.inj (hload.symm.trans hinit)
    have hlife : ∀ pre, pre <+: l.calls →
        codec.fromStr (codec.toString (Machine.run (exec serde) st' pre)) =
          .ok (Machine.run (exec serde) st' pre) := fun pre hpre =>
      hcodec [l] (List.prefix_append [l] ls) pre (List.append_nil pre ▸ .cons hpre .nil)
    obtain ⟨pre, hpre, hnext, hdone⟩ :=
      recovers_crashed hload (hfile l List.mem_cons_self) hlife hcrash
    obtain ⟨rest, hrest, hend⟩ := ih hnext (fun l hl => hfile l (List.mem_cons_of_mem _ hl))
      fun ls' hls' steps hsteps => by
        rw [← Machine.run_append]
        exact hcodec (l :: ls') (List.cons_prefix_cons.mpr ⟨rfl, hls'⟩) _ (.cons hpre hsteps)
    refine ⟨pre ++ rest, .cons hpre hdone hrest, ?_⟩
    rw [hend, Machine.run_append]

/-- **Any number of crashes and restarts** from an empty disk, where the file operations of
the calls succeed and the text of every state is read as what was written: the next backend
finds the state of one run of the calls that survive, which are a first part of each life. -/
theorem restarts_run (hlives : Lives serde w.codec {} ls d)
    (hfile : ∀ l ∈ ls, ∀ s ∈ l.calls, s.env.persistFault = none)
    (hfiles : ∀ ls', ls' <+: ls → ∀ steps, Remains ls' steps →
      w.Files (Machine.run (exec serde) {} steps)) :
    ∃ steps, Survives serde {} ls steps ∧
      withPersistence w.codec d = .ok (Machine.run (exec serde) {} steps) :=
  survives_lives hlives rfl hfile fun ls' hls' steps hsteps =>
    (hfiles ls' hls' steps hsteps).read_back

/-! ### Two lives -/

/-- All that may be left of some lives. -/
def remainders : List Life → List (List Step)
  | [] => [[]]
  | l :: ls => l.calls.inits.flatMap fun pre => (remainders ls).map fun rest => pre ++ rest

theorem Remains.mem_remainders {steps : List Step} (h : Remains ls steps) :
    steps ∈ remainders ls := by
  induction h with
  | nil => exact List.mem_singleton_self _
  | cons hpre _ ih =>
    exact List.mem_flatMap.mpr ⟨_, (List.mem_inits _ _).mpr hpre, List.mem_map_of_mem ih⟩

/-- A backend after the topic and its subscription have been created. -/
def firstStored : Stored :=
  Machine.run (Stored.step noJson (jsonWriter january).codec) ⟨{}, {}⟩ (busyRun.steps.take 2)

/-- It crashes a hundred characters into the temporary file of the first publish. -/
def cutShort : Life where
  answered := busyRun.steps.take 2
  last := busyRun.steps[2]
  disk := firstStored.disk.writeTmp (((jsonWriter january).codec.toString
    (exec noJson firstStored.state busyRun.steps[2])).take 100)

/-- The next backend after the publish has been sent again, and the messages pulled. -/
def secondStored : Stored :=
  Machine.run (Stored.step noJson (jsonWriter january).codec)
    ⟨stateAfter noJson (busyRun.steps.take 2), cutShort.disk⟩ [busyRun.steps[2], busyRun.steps[3]]

/-- It crashes when it has renamed the file, and not yet answered the acknowledgement. -/
def unanswered : Life where
  answered := [busyRun.steps[2], busyRun.steps[3]]
  last := busyAck
  disk := (secondStored.disk.writeTmp ((jsonWriter january).codec.toString
    (exec noJson secondStored.state busyAck))).rename

theorem lives_busy :
    Lives noJson (jsonWriter january).codec {} [cutShort, unanswered] unanswered.disk := by
  have hinRange : (stateAfter noJson (busyRun.steps.take 2)).InRange january := by decide +kernel
  -- the file is that of the last call before the one that was cut short
  have hfile : cutShort.disk.file =
      some ((jsonWriter january).codec.toString (stateAfter noJson (busyRun.steps.take 2))) := by
    have htwo : busyRun.steps.take 2 = [busyRun.steps[0]] ++ [busyRun.steps[1]] := rfl
    have hpersists : persists noJson (Machine.run (Stored.step noJson (jsonWriter january).codec)
        ⟨{}, {}⟩ [busyRun.steps[0]]).state busyRun.steps[1] = true := by
      decide +kernel
    show firstStored.disk.file = _
    unfold firstStored
    rw [htwo, Machine.run_concat, Stored.step_disk, if_pos hpersists]
    rfl
  have hload : withPersistence (jsonWriter january).codec cutShort.disk =
      .ok (stateAfter noJson (busyRun.steps.take 2)) := by
    unfold withPersistence
    rw [hfile]
    dsimp only
    rw [(jsonWriter_files hinRange).read_back]
    rfl
  have hfirst : persists noJson firstStored.state busyRun.steps[2] = true := by decide +kernel
  have hsecond : persists noJson secondStored.state busyAck = true := by decide +kernel
  exact .cons rfl (.writing 100 hfirst) (.cons hload (.renamed hsecond) (.nil _))

/-- The next backend finds what one run of the calls that survive leads to. -/
theorem restarted_busy :
    ∃ steps, Survives noJson {} [cutShort, unanswered] steps ∧
      withPersistence (jsonWriter january).codec unanswered.disk =
        .ok (Machine.run (exec noJson) {} steps) := by
  have hfile : ∀ l ∈ [cutShort, unanswered], ∀ s ∈ l.calls, s.env.persistFault = none := by
    decide +kernel
  have hstates : ∀ ls' ∈ [cutShort, unanswered].inits, ∀ steps ∈ remainders ls',
      (Machine.run (exec noJson) {} steps).InRange january := by
    decide +kernel
  refine restarts_run lives_busy hfile fun ls' hls' steps hsteps => jsonWriter_files ?_
  exact hstates ls' ((List.mem_inits _ _).mpr hls') steps hsteps.mem_remainders

end RelayPubsub.Memory
