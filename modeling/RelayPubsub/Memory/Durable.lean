import RelayPubsub.Memory.Document
import RelayPubsub.Memory.Outcome

/-!
# The state file

Persistence of `MemoryBackend`: the whole state is written to a temporary file,
which then replaces the state file (`persist_locked`), and a new backend reads
the state file, or starts with an empty store when there is none
(`with_persistence`). The encoding is a parameter, `RelayPubsub.Memory.Codec`; one that
reads back what it writes is made of the documents of a state and their texts
(`RelayPubsub.Memory.jsonWriter`).

A crash leaves the disk as it is at that moment; the temporary file may be cut
off anywhere. What a new backend finds is the state at the end of some call, and
not of one before a call that had succeeded (`RelayPubsub.Memory.load_crashed`).
The reason is the order of things in every operation: no call succeeds before it
has written the file (`RelayPubsub.Memory.persists_of_done`).
-/

namespace RelayPubsub.Memory

open Lib

/-! ### The text of a state -/

/-- `serde_json::to_string` and `serde_json::from_str` for a state. -/
structure Codec where
  toString : State → Text
  fromStr : Text → Except Text State

section Text

/-- **`serde_json` on the types of the store**: which of the documents of a state is written,
its text, and the document of a text. -/
structure Writer (dates : Dates) where
  /-- The document written, in some order of iteration. -/
  document : State → Value
  represents : ∀ {st : State}, st.InRange dates →
    (Serde.state dates).Represents st (document st)
  toString : Value → Text
  fromStr : Text → Except Text Value
  /-- The error for a document that is not one of a state. -/
  mismatch : Value → Text

variable {dates : Dates}

/-- Writing and reading a state. -/
def Writer.codec (w : Writer dates) : Codec where
  toString st := w.toString (w.document st)
  fromStr raw := (w.fromStr raw).bind fun v =>
    match (Serde.state dates).decode v with
    | some st => .ok st
    | none => .error (w.mismatch v)

/-- **What the file of a state rests on**: the ranges of its types, and a text that is read
as the document written. -/
structure Writer.Files (w : Writer dates) (st : State) : Prop where
  inRange : st.InRange dates
  fromStr : w.fromStr (w.toString (w.document st)) = .ok (w.document st)

variable {w : Writer dates}

/-- A state is read back from its file. -/
theorem Writer.Files.read_back {st : State} (h : w.Files st) :
    w.codec.fromStr (w.codec.toString st) = .ok st := by
  have hdecode := (Serde.state dates).decode_eq (w.represents h.inRange)
  simp [Writer.codec, h.fromStr, Except.bind, hdecode]

/-- **The compact text of the encoding.** -/
def jsonWriter (dates : Dates) : Writer dates where
  document := (Serde.state dates).encode
  represents h := (Serde.state dates).represents_encode (Serde.fits_state h)
  toString := Value.toText
  fromStr := Value.fromText
  mismatch _ := "invalid type"

theorem jsonWriter_files {st : State} (h : st.InRange dates) : (jsonWriter dates).Files st where
  inRange := h
  fromStr := Value.fromText_toText (Serde.writesIntegral_state st)

end Text

/-! ### Files -/

/-- **The files of a store**: the state file and the temporary one, where they
exist. -/
structure Disk where
  file : Option Text := none
  tmp : Option Text := none

namespace Disk

/-- `std::fs::write(&tmp, raw)`, of which a crash may leave a beginning. -/
def writeTmp (raw : Text) (d : Disk) : Disk := { d with tmp := some raw }

/-- `std::fs::rename(&tmp, path)` -/
def rename (d : Disk) : Disk := { file := d.tmp, tmp := none }

end Disk

/-- The state a backend starts with. -/
def withPersistence (codec : Codec) (d : Disk) : Except BackendError State :=
  match d.file with
  | some raw => (codec.fromStr raw).mapError fun e => .internal ("parse state: " ++ e)
  | none => .ok {}

variable (serde : SerdeJson) (codec : Codec)

/-- **A call gets to writing the file**: what it answers depends on whether that
fails. -/
def persists (st : State) (s : Step) : Bool :=
  decide (outcome serde st (s.withFault (some (.write []))) ≠ outcome serde st (s.withFault none))

/-- A backend with its files. -/
structure Stored where
  state : State
  disk : Disk

/-- A call whose file operations succeed. -/
def Stored.step (w : Stored) (s : Step) : Stored :=
  let st := exec serde w.state s
  { state := st
    disk := if persists serde w.state s then (w.disk.writeTmp (codec.toString st)).rename
      else w.disk }

theorem Stored.step_state (w : Stored) (s : Step) :
    (w.step serde codec s).state = exec serde w.state s := rfl

theorem Stored.step_disk (w : Stored) (s : Step) :
    (w.step serde codec s).disk =
      if persists serde w.state s then
        (w.disk.writeTmp (codec.toString (exec serde w.state s))).rename
      else w.disk := rfl

/-- **The disk a crash leaves**, at the end of the last call or during the call
`s`. -/
inductive Crash (w : Stored) (s : Step) : Disk → Prop
  /-- Before anything is written. -/
  | idle : Crash w s w.disk
  /-- While the temporary file is written, or before it is renamed. -/
  | writing (n : ℕ) : persists serde w.state s = true →
      Crash w s (w.disk.writeTmp ((codec.toString (exec serde w.state s)).take n))
  /-- Before the call returns. -/
  | renamed : persists serde w.state s = true →
      Crash w s (w.disk.writeTmp (codec.toString (exec serde w.state s))).rename

variable {serde codec}

theorem Step.withFault_eq_self {s : Step} {f : Option PersistFault}
    (h : s.env.persistFault = f) : s.withFault f = s := by
  subst h
  rfl

/-- **No call succeeds before it has written the file.** -/
theorem persists_of_done {st : State} {s : Step} (hs : s.env.persistFault = none)
    (h : outcome serde st s = some .done) : persists serde st s = true := by
  unfold persists
  rw [(persist_failure serde (.write []) st s).2, Step.withFault_eq_self hs, h]
  decide +kernel

/-- **What the disk recovers of a run**: a state the run has been in, and not before
one of the calls of `steps` that succeeded. -/
def Recovers (serde : SerdeJson) (codec : Codec) (st₀ : State) (all steps : List Step) (d : Disk) :
    Prop :=
  ∃ pre, pre <+: all ∧ withPersistence codec d = .ok (Machine.run (exec serde) st₀ pre) ∧
    ∀ mid t, mid ++ [t] <+: steps →
      outcome serde (Machine.run (exec serde) st₀ mid) t = some .done → mid ++ [t] <+: pre

section Recovers

variable {st₀ : State} {all steps : List Step} {d d' : Disk} {s : Step}

/-- The temporary file does not count. -/
theorem Recovers.of_file_eq (h : Recovers serde codec st₀ all steps d) (hfile : d'.file = d.file) :
    Recovers serde codec st₀ all steps d' := by
  unfold Recovers withPersistence at h ⊢
  rw [hfile]
  exact h

/-- The file that has just been renamed holds the last state. -/
theorem recovers_renamed (raw : Text)
    (hraw : codec.fromStr raw = .ok (Machine.run (exec serde) st₀ all)) (hsteps : steps <+: all) :
    Recovers serde codec st₀ all steps (d.writeTmp raw).rename := by
  refine ⟨all, List.prefix_refl all, ?_, fun mid t hpre _ => hpre.trans hsteps⟩
  unfold withPersistence Disk.rename Disk.writeTmp
  dsimp only
  rw [hraw]
  rfl

/-- A call that writes nothing has not succeeded. -/
theorem Recovers.concat (h : Recovers serde codec st₀ steps steps d)
    (hs : s.env.persistFault = none)
    (hp : persists serde (Machine.run (exec serde) st₀ steps) s = false) :
    Recovers serde codec st₀ (steps ++ [s]) (steps ++ [s]) d := by
  obtain ⟨pre, hpre, hload, hdone⟩ := h
  refine ⟨pre, hpre.trans (List.prefix_append _ _), hload, fun mid t hmid hout => ?_⟩
  rcases List.prefix_concat_iff.mp hmid with heq | hmid
  · obtain ⟨rfl, hst⟩ := List.append_inj' heq rfl
    obtain rfl := (List.cons.inj hst).1
    rw [persists_of_done hs hout] at hp
    cases hp
  · exact hdone mid t hmid hout

/-- **The files along a run**: at the end of every call they recover the run. -/
theorem recovers_run {d₀ : Disk} (hinit : withPersistence codec d₀ = .ok st₀)
    (hfile : ∀ s ∈ steps, s.env.persistFault = none)
    (hcodec : ∀ pre, pre <+: steps →
      codec.fromStr (codec.toString (Machine.run (exec serde) st₀ pre)) =
        .ok (Machine.run (exec serde) st₀ pre)) :
    (Machine.run (Stored.step serde codec) ⟨st₀, d₀⟩ steps).state =
        Machine.run (exec serde) st₀ steps ∧
      Recovers serde codec st₀ steps steps
        (Machine.run (Stored.step serde codec) ⟨st₀, d₀⟩ steps).disk := by
  induction steps using List.reverseRecOn with
  | nil =>
    refine ⟨rfl, [], List.prefix_refl _, hinit, fun mid t hpre => ?_⟩
    exact absurd (List.prefix_nil.mp hpre) (by simp)
  | append_singleton steps s ih =>
    obtain ⟨hstate, hrec⟩ := ih (fun t ht => hfile t (List.mem_append_left _ ht))
      fun pre hpre => hcodec pre (hpre.trans (List.prefix_append _ _))
    have hs : s.env.persistFault = none := hfile s (by simp)
    rw [Machine.run_concat, Machine.run_concat, Stored.step_state, Stored.step_disk, hstate]
    refine ⟨rfl, ?_⟩
    split
    · have hlast := hcodec (steps ++ [s]) (List.prefix_refl _)
      rw [Machine.run_concat] at hlast
      refine recovers_renamed _ ?_ (List.prefix_refl _)
      rwa [Machine.run_concat]
    · rename_i hp
      exact hrec.concat hs (by simpa using hp)

/-- **What a new backend finds after a crash** at any point of a run: the state
before the first or after some call, with every call that had succeeded. -/
theorem load_crashed {d₀ : Disk} (hinit : withPersistence codec d₀ = .ok st₀)
    (hfile : ∀ t ∈ steps ++ [s], t.env.persistFault = none)
    (hcodec : ∀ pre, pre <+: steps ++ [s] →
      codec.fromStr (codec.toString (Machine.run (exec serde) st₀ pre)) =
        .ok (Machine.run (exec serde) st₀ pre))
    (hcrash : Crash serde codec (Machine.run (Stored.step serde codec) ⟨st₀, d₀⟩ steps) s d) :
    ∃ pre, pre <+: steps ++ [s] ∧
      withPersistence codec d = .ok (Machine.run (exec serde) st₀ pre) ∧
      ∀ mid t, mid ++ [t] <+: steps →
        outcome serde (Machine.run (exec serde) st₀ mid) t = some .done → mid ++ [t] <+: pre := by
  obtain ⟨hstate, pre, hpre, hload, hdone⟩ := recovers_run hinit
    (fun t ht => hfile t (List.mem_append_left _ ht))
    fun pre hpre => hcodec pre (hpre.trans (List.prefix_append _ _))
  have hrec : Recovers serde codec st₀ (steps ++ [s]) steps
      (Machine.run (Stored.step serde codec) ⟨st₀, d₀⟩ steps).disk :=
    ⟨pre, hpre.trans (List.prefix_append _ _), hload, hdone⟩
  cases hcrash with
  | idle => exact hrec
  | writing n _ => exact hrec.of_file_eq rfl
  | renamed _ =>
    have hlast := hcodec (steps ++ [s]) (List.prefix_refl _)
    rw [Machine.run_concat, ← hstate] at hlast
    refine recovers_renamed _ ?_ (List.prefix_append _ _)
    rwa [Machine.run_concat, ← hstate]

end Recovers

/-! ### A crash in the middle of a file -/

/-- A backend after the first four calls. -/
def busyStored : Stored :=
  Machine.run (Stored.step noJson (jsonWriter january).codec) ⟨{}, {}⟩ (busyRun.steps.take 4)

/-- The disk when it crashes in the next one, a hundred characters into the temporary file. -/
def busyDisk : Disk :=
  busyStored.disk.writeTmp
    (((jsonWriter january).codec.toString (exec noJson busyStored.state busyAck)).take 100)

/-- What was published and pulled before is found after the crash. -/
theorem busy_loaded :
    ∃ pre, pre <+: busyRun.steps.take 4 ++ [busyAck] ∧
      withPersistence (jsonWriter january).codec busyDisk = .ok (Machine.run (exec noJson) {} pre) ∧
      busyRun.steps.take 4 <+: pre := by
  have hstates : ∀ pre ∈ (busyRun.steps.take 4 ++ [busyAck]).inits,
      (Machine.run (exec noJson) {} pre).InRange january := by
    decide +kernel
  have hfile : ∀ t ∈ busyRun.steps.take 4 ++ [busyAck], t.env.persistFault = none := by
    decide +kernel
  have hpersists : persists noJson busyStored.state busyAck = true := by decide +kernel
  have hpulled : outcome noJson (Machine.run (exec noJson) {} (busyRun.steps.take 3))
      busyRun.steps[3] = some .done := by
    decide +kernel
  have hfour : busyRun.steps.take 3 ++ [busyRun.steps[3]] = busyRun.steps.take 4 :=
    List.take_append_getElem (by decide)
  have hinit : withPersistence (jsonWriter january).codec {} = .ok {} := rfl
  obtain ⟨pre, hpre, hload, hdone⟩ := load_crashed hinit hfile
    (fun pre hpre => (jsonWriter_files (hstates pre ((List.mem_inits _ _).mpr hpre))).read_back)
    (.writing 100 hpersists)
  refine ⟨pre, hpre, hload, ?_⟩
  rw [← hfour]
  exact hdone _ _ (hfour ▸ List.prefix_refl _) hpulled

end RelayPubsub.Memory
