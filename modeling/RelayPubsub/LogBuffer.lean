import RelayPubsub.Lib.Machine
import RelayPubsub.Model

/-!
# The log buffer and its tailers

`LogBuffer` of `src/log_buffer.rs`, the ring buffer of log entries behind the ops
console, and `admin_logs` of `src/rest.rs`, which reads it. Every operation holds
the lock for its whole duration, so producers and a reader interleave operation by
operation (`RelayPubsub.Tailing.step`).

A *tailer* asks `admin_logs` again and again, each time for what is after the id it
was given last. It misses entries only when the buffer has dropped them before it
came to read them:

| what | where |
|---|---|
| the buffer is the end of the log | `RelayPubsub.entries_stateAfter` |
| one read | `RelayPubsub.Reads`, `RelayPubsub.reads_adminLogs` |
| a whole run | `RelayPubsub.tailing` |
-/

namespace RelayPubsub

open Lib

inductive Level
  | error | warn | info | debug | trace

def levelStr : Level → Text
  | .error => "ERROR"
  | .warn => "WARN"
  | .info => "INFO"
  | .debug => "DEBUG"
  | .trace => "TRACE"

structure LogEntry where
  id : ℕ
  ts : Time
  level : Text
  target : Text
  message : Text

structure LogBuffer where
  nextId : ℕ
  entries : List LogEntry
  capacity : ℕ

def LogBuffer.new (capacity : ℕ) : LogBuffer where
  nextId := 1
  entries := []
  capacity := max capacity 100

/-- The loop at the end of `push`: entries are dropped from the front while there are
too many. -/
def evict (capacity : ℕ) : List LogEntry → List LogEntry
  | [] => []
  | entry :: rest => if capacity < rest.length + 1 then evict capacity rest else entry :: rest

/-- The id is a `u64`, and the next one saturates. -/
def LogBuffer.push (logs : LogBuffer) (now : Time) (level : Level) (target message : Text) :
    LogBuffer :=
  let entry : LogEntry := ⟨logs.nextId, now, levelStr level, target, message⟩
  { logs with
    nextId := min (logs.nextId + 1) (2 ^ 64 - 1)
    entries := evict logs.capacity (logs.entries ++ [entry]) }

/-- `limit.clamp(1, 2000)`. -/
def clampLimit (limit : ℕ) : ℕ := min (max limit 1) 2000

def LogBuffer.since (logs : LogBuffer) (afterId limit : ℕ) : List LogEntry :=
  (logs.entries.filter fun e => afterId < e.id).take (clampLimit limit)

def LogBuffer.recent (logs : LogBuffer) (limit : ℕ) : List LogEntry :=
  (logs.entries.reverse.take (clampLimit limit)).reverse

/-- What `admin_logs` answers. -/
structure LogsAnswer where
  entries : List LogEntry
  nextAfter : ℕ

def adminLogs (logs : LogBuffer) (after limit : Option ℕ) : LogsAnswer :=
  let limit := limit.getD 200
  let entries :=
    match after with
    | some after => logs.since after limit
    | none => logs.recent limit
  { entries
    nextAfter := (entries.getLast?.map (·.id)).getD (after.getD 0) }

/-! ### Producers and a tailer -/

/-- A step of the system: an entry is pushed, or the tailer asks for more. -/
inductive TailStep
  | push (now : Time) (level : Level) (target message : Text)
  | poll (limit : Option ℕ)

/-- The buffer, and a tailer: the `after` of its next request, and the entries it has
received. -/
structure Tailing where
  logs : LogBuffer
  after : Option ℕ
  received : List LogEntry

/-- A tailer that starts with `recent` has no `after` yet, one that starts with
`since(0, _)` has the id 0. -/
def Tailing.start (capacity : ℕ) (after : Option ℕ) : Tailing := ⟨.new capacity, after, []⟩

def Tailing.step (t : Tailing) : TailStep → Tailing
  | .push now level target message => { t with logs := t.logs.push now level target message }
  | .poll limit =>
    let answer := adminLogs t.logs t.after limit
    { t with after := some answer.nextAfter, received := t.received ++ answer.entries }

/-- A log that nothing is dropped from. -/
def record (log : List LogEntry) : TailStep → List LogEntry
  | .push now level target message =>
    log ++ [⟨log.length + 1, now, levelStr level, target, message⟩]
  | .poll _ => log

/-- **Every entry pushed in a run**, in push order. -/
def pushed (steps : List TailStep) : List LogEntry := Machine.run record [] steps

/-- The state after a run. -/
def tailAfter (capacity : ℕ) (after : Option ℕ) (steps : List TailStep) : Tailing :=
  Machine.run Tailing.step (.start capacity after) steps

/-! ### The buffer holds the end of the log -/

theorem evict_eq_rtake (capacity : ℕ) (entries : List LogEntry) :
    evict capacity entries = entries.rtake capacity := by
  induction entries with
  | nil => rw [evict, List.rtake_nil]
  | cons entry rest ih =>
    rw [evict]
    split_ifs with h
    · rw [ih, List.rtake, List.rtake, List.length_cons, Nat.succ_sub (Nat.lt_succ_iff.mp h),
        List.drop_succ_cons]
    · rw [List.rtake, List.length_cons, Nat.sub_eq_zero_of_le (not_lt.mp h), List.drop_zero]

/-- Dropping what is over the capacity at each push drops the same as dropping once. -/
theorem rtake_rtake_concat {α : Type} (l : List α) (x : α) {n : ℕ} (hn : 0 < n) :
    (l.rtake n ++ [x]).rtake n = (l ++ [x]).rtake n := by
  obtain ⟨m, rfl⟩ := Nat.exists_eq_succ_of_ne_zero hn.ne'
  rw [List.rtake_concat_succ, List.rtake_concat_succ]
  congr 1
  rw [List.rtake, List.rtake, List.rtake, List.drop_drop, List.length_drop]
  congr 1
  omega

theorem map_id_pushed (steps : List TailStep) :
    (pushed steps).map (·.id) = List.range' 1 (pushed steps).length := by
  induction steps using List.reverseRecOn with
  | nil => rfl
  | append_singleton steps s ih =>
    rw [pushed, Machine.run_concat, ← pushed]
    cases s with
    | push now level target message =>
      rw [record, List.map_append, ih, List.map_singleton, List.length_append,
        List.length_singleton, List.range'_concat, Nat.one_mul, Nat.add_comm 1]
    | poll limit => exact ih

/-- A log only grows. -/
theorem length_pushed_le {pre steps : List TailStep} (h : pre <+: steps) :
    (pushed pre).length ≤ (pushed steps).length := by
  obtain ⟨rest, rfl⟩ := h
  induction rest using List.reverseRecOn with
  | nil => rw [List.append_nil]
  | append_singleton rest s ih =>
    refine ih.trans ?_
    rw [← List.append_assoc, pushed, pushed, Machine.run_concat]
    cases s with
    | push _ _ _ _ =>
      rw [record, List.length_append]
      exact Nat.le_add_right _ _
    | poll _ => exact le_rfl

/-- **The buffer after a run**: the end of the log, and the id of the next entry. -/
structure HoldsEnd (capacity : ℕ) (log : List LogEntry) (logs : LogBuffer) : Prop where
  capacity_eq : logs.capacity = max capacity 100
  nextId : log.length + 1 < 2 ^ 64 → logs.nextId = log.length + 1
  entries : logs.entries = log.rtake (max capacity 100)

theorem entries_stateAfter {capacity : ℕ} {after : Option ℕ} {steps : List TailStep}
    (hlen : (pushed steps).length < 2 ^ 64) :
    HoldsEnd capacity (pushed steps) (tailAfter capacity after steps).logs := by
  induction steps using List.reverseRecOn with
  | nil => exact ⟨rfl, fun _ => rfl, (List.rtake_nil _).symm⟩
  | append_singleton steps s ih =>
    have hbefore := ih ((length_pushed_le (List.prefix_append _ _)).trans_lt hlen)
    rw [tailAfter, Machine.run_concat, ← tailAfter]
    rw [pushed, Machine.run_concat, ← pushed] at hlen ⊢
    cases s with
    | push now level target message =>
      obtain ⟨hcapacity, hnext, hentries⟩ := hbefore
      rw [record, List.length_append, List.length_singleton] at hlen
      refine ⟨hcapacity, fun h => ?_, ?_⟩
      · rw [record, List.length_append, List.length_singleton] at h ⊢
        show min (_ + 1) _ = _
        rw [hnext (by omega)]
        omega
      · show evict _ (_ ++ [_]) = _
        rw [hnext hlen, hcapacity, hentries, evict_eq_rtake, record]
        exact rtake_rtake_concat _ _ (by omega)
    | poll limit => exact hbefore

/-- The ids in the buffer are consecutive, and end with the last one given. -/
theorem map_id_rtake_pushed (steps : List TailStep) (n : ℕ) :
    ((pushed steps).rtake n).map (·.id) =
      List.range' (1 + ((pushed steps).length - n)) (min (pushed steps).length n) := by
  rw [List.rtake, List.map_drop, map_id_pushed, List.drop_range', Nat.mul_one]
  congr 1
  omega

/-! ### One read -/

/-- **Entries with consecutive ids.** -/
structure Consecutive (entries : List LogEntry) : Prop where
  increasing : (entries.map (·.id)).Pairwise (· < ·)
  between : ∀ ⦃a⦄, a ∈ entries → ∀ ⦃b⦄, b ∈ entries → ∀ x, a.id < x → x < b.id →
    ∃ e ∈ entries, e.id = x

theorem consecutive_of_range {entries : List LogEntry} {first count : ℕ}
    (h : entries.map (·.id) = List.range' first count) : Consecutive entries := by
  refine ⟨h ▸ List.pairwise_lt_range', fun a ha b hb x hax hxb => ?_⟩
  have ha' := List.mem_map_of_mem (f := LogEntry.id) ha
  have hb' := List.mem_map_of_mem (f := LogEntry.id) hb
  rw [h, List.mem_range'_1] at ha' hb'
  refine List.mem_map.mp ?_
  rw [h, List.mem_range'_1]
  omega

/-- The beginning of a list of increasing ids is closed downwards. -/
theorem mem_take_of_id_lt {entries : List LogEntry} (h : (entries.map (·.id)).Pairwise (· < ·))
    {n : ℕ} {a b : LogEntry} (ha : a ∈ entries) (hb : b ∈ entries.take n) (hab : a.id < b.id) :
    a ∈ entries.take n := by
  rw [← List.take_append_drop n entries] at h ha
  rw [List.map_append, List.pairwise_append] at h
  refine (List.mem_append.mp ha).resolve_right fun hdrop => ?_
  have hba := h.2.2 _ (List.mem_map_of_mem hb) _ (List.mem_map_of_mem hdrop)
  exact absurd (hab.trans hba) (lt_irrefl _)

/-- The end of a list of increasing ids is closed upwards. -/
theorem mem_rtake_of_lt_id {entries : List LogEntry} (h : (entries.map (·.id)).Pairwise (· < ·))
    {n : ℕ} {a b : LogEntry} (ha : a ∈ entries.rtake n) (hb : b ∈ entries) (hab : a.id < b.id) :
    b ∈ entries.rtake n := by
  rw [List.rtake] at ha ⊢
  rw [← List.take_append_drop (entries.length - n) entries, List.map_append,
    List.pairwise_append] at h
  rw [← List.take_append_drop (entries.length - n) entries] at hb
  refine (List.mem_append.mp hb).resolve_left fun htake => ?_
  have hba := h.2.2 _ (List.mem_map_of_mem htake) _ (List.mem_map_of_mem ha)
  exact absurd (hab.trans hba) (lt_irrefl _)

/-- **A read of a buffer**: consecutive entries, all after the id asked for, none of the
buffer left out before the last of them, and the id to ask with next. -/
structure Reads (logs : LogBuffer) (after : Option ℕ) (answer : LogsAnswer) : Prop where
  subset : answer.entries ⊆ logs.entries
  consecutive : Consecutive answer.entries
  above : ∀ a ∈ after, ∀ e ∈ answer.entries, a < e.id
  complete : ∀ a ∈ after, ∀ e ∈ logs.entries, ∀ last ∈ answer.entries, a < e.id → e.id < last.id →
    e ∈ answer.entries
  le_nextAfter : ∀ e ∈ answer.entries, e.id ≤ answer.nextAfter
  nextAfter : answer.entries = [] ∧ answer.nextAfter = after.getD 0 ∨
    ∃ e ∈ answer.entries, e.id = answer.nextAfter

/-- The last of increasing ids is the greatest. -/
theorem le_getLast_id {entries : List LogEntry} (h : (entries.map (·.id)).Pairwise (· < ·))
    {last e : LogEntry} (hlast : entries.getLast? = some last) (he : e ∈ entries) :
    e.id ≤ last.id := by
  obtain ⟨before, rfl⟩ := List.getLast?_eq_some_iff.mp hlast
  rw [List.map_append, List.pairwise_append] at h
  rcases List.mem_append.mp he with he | he
  · exact (h.2.2 _ (List.mem_map_of_mem he) _ (List.mem_map_of_mem (List.mem_singleton_self _))).le
  · exact (List.mem_singleton.mp he ▸ le_rfl)

/-- **A request to `admin_logs` reads the buffer.** -/
theorem reads_adminLogs {logs : LogBuffer} (h : Consecutive logs.entries)
    (after limit : Option ℕ) : Reads logs after (adminLogs logs after limit) := by
  have hentries : Consecutive (adminLogs logs after limit).entries ∧
      (∀ a ∈ after, ∀ e ∈ (adminLogs logs after limit).entries, a < e.id) ∧
      ∀ a ∈ after, ∀ e ∈ logs.entries, ∀ last ∈ (adminLogs logs after limit).entries,
        a < e.id → e.id < last.id → e ∈ (adminLogs logs after limit).entries := by
    cases after with
    | none =>
      show Consecutive (logs.recent _) ∧ _
      have hrecent : logs.recent (limit.getD 200) =
          logs.entries.rtake (clampLimit (limit.getD 200)) :=
        (List.rtake_eq_reverse_take_reverse _ _).symm
      rw [hrecent]
      refine ⟨⟨?_, fun a ha b hb x hax hxb => ?_⟩, by simp, by simp⟩
      · exact h.increasing.sublist ((List.drop_sublist _ _).map _)
      · obtain ⟨e, he, rfl⟩ :=
          h.between (List.mem_of_mem_drop ha) (List.mem_of_mem_drop hb) x hax hxb
        exact ⟨e, mem_rtake_of_lt_id h.increasing ha he hax, rfl⟩
    | some after =>
      show Consecutive (logs.since _ _) ∧ (∀ a ∈ some after, ∀ e ∈ logs.since _ _, a < e.id) ∧
        ∀ a ∈ some after, ∀ e ∈ _, ∀ last ∈ logs.since _ _, _
      rw [LogBuffer.since]
      have hfilter := h.increasing.sublist ((List.filter_sublist (p := fun e : LogEntry =>
        decide (after < e.id)) (l := logs.entries)).map LogEntry.id)
      have habove : ∀ e ∈ (logs.entries.filter fun e => after < e.id).take
          (clampLimit (limit.getD 200)), e ∈ logs.entries ∧ after < e.id := fun e he => by
        simpa using List.mem_filter.mp (List.mem_of_mem_take he)
      have hcomplete : ∀ e ∈ logs.entries, ∀ last ∈ (logs.entries.filter fun e => after < e.id).take
          (clampLimit (limit.getD 200)), after < e.id → e.id < last.id →
          e ∈ (logs.entries.filter fun e => after < e.id).take (clampLimit (limit.getD 200)) :=
        fun e he last hlast hafter hlt =>
          mem_take_of_id_lt hfilter (List.mem_filter.mpr ⟨he, by simpa using hafter⟩) hlast hlt
      refine ⟨⟨hfilter.sublist ((List.take_sublist _ _).map _), fun a ha b hb x hax hxb => ?_⟩,
        ?_, ?_⟩
      · obtain ⟨hmem, hafter⟩ := habove a ha
        obtain ⟨e, he, rfl⟩ := h.between hmem (habove b hb).1 x hax hxb
        exact ⟨e, hcomplete e he b hb (hafter.trans hax) hxb, rfl⟩
      · rintro _ ⟨⟩ e he
        exact (habove e he).2
      · rintro _ ⟨⟩ e he last hlast
        exact hcomplete e he last hlast
  have hsubset : (adminLogs logs after limit).entries ⊆ logs.entries := by
    intro e he
    cases after with
    | none => exact List.mem_reverse.mp (List.mem_of_mem_take (List.mem_reverse.mp he))
    | some after => exact List.mem_of_mem_filter (List.mem_of_mem_take he)
  obtain ⟨hconsecutive, habove, hcomplete⟩ := hentries
  have hnext : (adminLogs logs after limit).nextAfter =
      ((adminLogs logs after limit).entries.getLast?.map (·.id)).getD (after.getD 0) := rfl
  refine ⟨hsubset, hconsecutive, habove, hcomplete, fun e he => ?_, ?_⟩
  · obtain ⟨last, hlast⟩ := Option.isSome_iff_exists.mp
      (List.getLast?_isSome.mpr (List.ne_nil_of_mem he))
    rw [hnext, hlast]
    exact le_getLast_id hconsecutive.increasing hlast he
  · rw [hnext]
    cases hlast : (adminLogs logs after limit).entries.getLast? with
    | none => exact Or.inl ⟨List.getLast?_eq_none_iff.mp hlast, rfl⟩
    | some last => exact Or.inr ⟨last, List.mem_of_getLast? hlast, rfl⟩

/-! ### A whole run -/

section Run

variable {capacity : ℕ} {start : Option ℕ} {steps : List TailStep}

/-- The buffer in a run holds consecutive ids. -/
theorem consecutive_tailAfter (hlen : (pushed steps).length < 2 ^ 64) :
    Consecutive (tailAfter capacity start steps).logs.entries := by
  rw [(entries_stateAfter hlen).entries]
  exact consecutive_of_range (map_id_rtake_pushed steps _)

variable (capacity start steps) in
/-- **An id is passed over**: by a request for what is after a smaller id, whose answer
ends with a greater one, at a time when the capacity has driven its entry out of the
buffer. -/
def PassedOver (x : ℕ) : Prop :=
  ∃ pre limit after, pre ++ [.poll limit] <+: steps ∧
    (tailAfter capacity start pre).after = some after ∧ after < x ∧
    x < (adminLogs (tailAfter capacity start pre).logs (some after) limit).nextAfter ∧
    x + max capacity 100 ≤ (pushed pre).length ∧
    ∀ e ∈ (tailAfter capacity start pre).logs.entries, e.id ≠ x

variable (capacity start steps) in
/-- **What a tailer has received in a run**, and where it stands. -/
structure Received : Prop where
  increasing : ((tailAfter capacity start steps).received.map (·.id)).Pairwise (· < ·)
  le_after : ∀ e ∈ (tailAfter capacity start steps).received,
    ∃ after, (tailAfter capacity start steps).after = some after ∧ e.id ≤ after
  after_mem : ∀ after, (tailAfter capacity start steps).after = some after →
    after = 0 ∨ ∃ e ∈ (tailAfter capacity start steps).received, e.id = after
  gaps : ∀ ⦃a⦄, a ∈ (tailAfter capacity start steps).received →
    ∀ ⦃b⦄, b ∈ (tailAfter capacity start steps).received → ∀ x, a.id < x → x < b.id →
    (∀ e ∈ (tailAfter capacity start steps).received, e.id ≠ x) →
    PassedOver capacity start steps x

theorem PassedOver.concat {x : ℕ} (h : PassedOver capacity start steps x) (s : TailStep) :
    PassedOver capacity start (steps ++ [s]) x := by
  obtain ⟨pre, limit, after, hpre, hrest⟩ := h
  exact ⟨pre, limit, after, hpre.trans (List.prefix_append _ _), hrest⟩

/-- An id that is no longer in the buffer has been driven out. -/
theorem driven_out (hlen : (pushed steps).length < 2 ^ 64) {x : ℕ} (hx : 0 < x) {b : LogEntry}
    (hb : b ∈ (tailAfter capacity start steps).logs.entries) (hxb : x < b.id)
    (hnot : ∀ e ∈ (tailAfter capacity start steps).logs.entries, e.id ≠ x) :
    x + max capacity 100 ≤ (pushed steps).length := by
  have hids := map_id_rtake_pushed steps (max capacity 100)
  rw [← (@entries_stateAfter capacity start steps hlen).entries] at hids
  have hb' := List.mem_map_of_mem (f := LogEntry.id) hb
  have hx' : x ∉ (tailAfter capacity start steps).logs.entries.map LogEntry.id := by
    rintro hmem
    obtain ⟨e, he, rfl⟩ := List.mem_map.mp hmem
    exact hnot e he rfl
  rw [hids, List.mem_range'_1] at hb' hx'
  omega

/-- **A request keeps the account.** -/
theorem Received.poll (h : Received capacity start steps)
    (hlen : (pushed steps).length < 2 ^ 64) (limit : Option ℕ) :
    Received capacity start (steps ++ [.poll limit]) := by
  have hreads := reads_adminLogs (@consecutive_tailAfter capacity start steps hlen)
    (tailAfter capacity start steps).after limit
  have hstep : tailAfter capacity start (steps ++ [.poll limit]) =
      (tailAfter capacity start steps).step (.poll limit) := Machine.run_concat ..
  have hpassed : ∀ after x, (tailAfter capacity start steps).after = some after → after < x →
      (∃ b ∈ (adminLogs (tailAfter capacity start steps).logs
        (tailAfter capacity start steps).after limit).entries, x < b.id) →
      (∀ e ∈ (tailAfter capacity start steps).logs.entries, e.id ≠ x) →
      PassedOver capacity start (steps ++ [.poll limit]) x := by
    rintro after x hafter hx ⟨b, hb, hxb⟩ hnot
    refine ⟨steps, limit, after, List.prefix_refl _, hafter, hx, ?_, ?_, hnot⟩
    · rw [← hafter]
      exact hxb.trans_le (hreads.le_nextAfter b hb)
    · exact driven_out hlen (Nat.zero_lt_of_lt hx) (hreads.subset hb) hxb hnot
  constructor
  all_goals rw [hstep]; dsimp only [Tailing.step]
  · rw [List.map_append, List.pairwise_append]
    refine ⟨h.increasing, hreads.consecutive.increasing, fun a ha b hb => ?_⟩
    obtain ⟨e, he, rfl⟩ := List.mem_map.mp ha
    obtain ⟨e', he', rfl⟩ := List.mem_map.mp hb
    obtain ⟨after, hafter, hle⟩ := h.le_after e he
    exact hle.trans_lt (hreads.above after hafter e' he')
  · intro e he
    refine ⟨_, rfl, ?_⟩
    rcases List.mem_append.mp he with he | he
    · obtain ⟨after, hafter, hle⟩ := h.le_after e he
      rcases hreads.nextAfter with ⟨-, hnext⟩ | ⟨e', he', hnext⟩
      · rwa [hnext, hafter, Option.getD_some]
      · exact hnext ▸ hle.trans (hreads.above after hafter e' he').le
    · exact hreads.le_nextAfter e he
  · rintro _ ⟨⟩
    rcases hreads.nextAfter with ⟨-, hnext⟩ | ⟨e, he, hnext⟩
    · rw [hnext]
      cases hafter : (tailAfter capacity start steps).after with
      | none => exact Or.inl rfl
      | some after =>
        refine (h.after_mem after hafter).imp_right ?_
        rintro ⟨e, he, hid⟩
        exact ⟨e, List.mem_append_left _ he, hid⟩
    · exact Or.inr ⟨e, List.mem_append_right _ he, hnext⟩
  · intro a ha b hb x hax hxb hnot
    have hbefore : ∀ e ∈ (tailAfter capacity start steps).received, e.id ≠ x :=
      fun e he => hnot e (List.mem_append_left _ he)
    have hanswer := fun e he => hnot e (List.mem_append_right _ he)
    rcases List.mem_append.mp hb with hb | hb
    · rcases List.mem_append.mp ha with ha | ha
      · exact (h.gaps ha hb x hax hxb hbefore).concat _
      · -- an entry of this answer comes after all that were received before
        obtain ⟨after, hafter, hle⟩ := h.le_after b hb
        have habove := hreads.above after hafter a ha
        omega
    · rcases List.mem_append.mp ha with ha | ha
      · obtain ⟨after, hafter, hle⟩ := h.le_after a ha
        rcases Nat.lt_or_ge after x with hlt | hge
        · refine hpassed after x hafter hlt ⟨b, hb, hxb⟩ fun e he hid => ?_
          exact hanswer e (hreads.complete after hafter e he b hb (hid ▸ hlt) (hid ▸ hxb)) hid
        · obtain ⟨e, he, hid⟩ := (h.after_mem after hafter).resolve_left (by omega)
          have hne := hbefore e he
          exact (h.gaps ha he x hax (by omega) hbefore).concat _
      · obtain ⟨e, he, hid⟩ := hreads.consecutive.between ha hb x hax hxb
        exact (hanswer e he hid).elim

theorem received_tailAfter (hstart : start = none ∨ start = some 0)
    (hlen : (pushed steps).length < 2 ^ 64) : Received capacity start steps := by
  induction steps using List.reverseRecOn with
  | nil =>
    have hnil : (tailAfter capacity start []).received = [] := rfl
    refine ⟨by simp [hnil], by simp [hnil], fun after hafter => Or.inl ?_, by simp [hnil]⟩
    rcases hstart with rfl | rfl
    · cases hafter
    · exact (Option.some.inj hafter).symm
  | append_singleton steps s ih =>
    have hlen' := (length_pushed_le (List.prefix_append steps [s])).trans_lt hlen
    have h := ih hlen'
    cases s with
    | poll limit => exact h.poll hlen' limit
    | push now level target message =>
      have hstep : tailAfter capacity start (steps ++ [.push now level target message]) =
          (tailAfter capacity start steps).step (.push now level target message) :=
        Machine.run_concat ..
      constructor
      all_goals rw [hstep]; dsimp only [Tailing.step]
      · exact h.increasing
      · exact h.le_after
      · exact h.after_mem
      · exact fun a ha b hb x hax hxb hnot => (h.gaps ha hb x hax hxb hnot).concat _

end Run

/-- **A tailer neither repeats nor skips what is retained.** In every run of fewer than
`2 ^ 64` pushes, with any limits: the ids received increase, an id between two of them
that was not received had been driven out of the buffer when the request ran that passed
over it, and in every state the buffer holds the end of the log, with consecutive ids. -/
theorem tailing (capacity : ℕ) (start : Option ℕ) (hstart : start = none ∨ start = some 0)
    (steps : List TailStep) (hlen : (pushed steps).length < 2 ^ 64) :
    let received := (tailAfter capacity start steps).received
    (received.map (·.id)).Pairwise (· < ·) ∧
    (∀ a ∈ received, ∀ b ∈ received, ∀ x, a.id < x → x < b.id → (∀ e ∈ received, e.id ≠ x) →
      PassedOver capacity start steps x) ∧
    ∀ pre, pre <+: steps →
      let held := (tailAfter capacity start pre).logs.entries
      let count := min (pushed pre).length (max capacity 100)
      held = (pushed pre).rtake count ∧ held.length = count ∧
        held.map (·.id) = List.range' (1 + ((pushed pre).length - count)) count := by
  have h := @received_tailAfter capacity start steps hstart hlen
  refine ⟨h.increasing, fun a ha b hb => h.gaps ha hb, fun pre hpre => ?_⟩
  have hheld : (tailAfter capacity start pre).logs.entries =
      (pushed pre).rtake (min (pushed pre).length (max capacity 100)) := by
    rw [(entries_stateAfter ((length_pushed_le hpre).trans_lt hlen)).entries, List.rtake,
      List.rtake]
    congr 1
    omega
  have hids := map_id_rtake_pushed pre (min (pushed pre).length (max capacity 100))
  rw [← hheld, min_eq_right (min_le_left _ _)] at hids
  refine ⟨hheld, ?_, hids⟩
  rw [← List.length_map (·.id), hids, List.length_range']

/-- A tailer reads the first entry, and asks again when the buffer has had to drop two. -/
def outrun : List TailStep :=
  [.push 0 .info "t" "m", .poll (some 1)] ++ List.replicate 101 (.push 0 .info "t" "m") ++
    [.poll none]

/-- It gets the first entry and then what the buffer has kept; the second one had been
driven out. -/
theorem tailing_outrun :
    ((tailAfter 1 (some 0) outrun).received.map (·.id)).Pairwise (· < ·) ∧
      PassedOver 1 (some 0) outrun 2 := by
  have hids : (tailAfter 1 (some 0) outrun).received.map (·.id) = 1 :: List.range' 3 100 := by
    decide +kernel
  obtain ⟨hincreasing, hgaps, -⟩ := tailing 1 (some 0) (Or.inr rfl) outrun (by decide +kernel)
  refine ⟨hincreasing, ?_⟩
  have hfirst : 1 ∈ (tailAfter 1 (some 0) outrun).received.map (·.id) := by
    rw [hids]
    exact List.mem_cons_self
  have hthird : 3 ∈ (tailAfter 1 (some 0) outrun).received.map (·.id) := by
    rw [hids]
    decide
  obtain ⟨a, ha, haid⟩ := List.mem_map.mp hfirst
  obtain ⟨b, hb, hbid⟩ := List.mem_map.mp hthird
  refine hgaps a ha b hb 2 (by omega) (by omega) ?_
  intro e he hid
  have hsecond : e.id ∈ 1 :: List.range' 3 100 := hids ▸ List.mem_map_of_mem he
  rw [hid] at hsecond
  exact absurd hsecond (by decide)

/-- Two entries are pushed, and a tailer asks for them. -/
def pushedTwice : List TailStep :=
  [.push 0 .info "t" "m0", .push 0 .info "t" "m1", .poll (some 1), .poll none]

/-- **A small capacity is not kept**: a buffer made for one entry holds two. -/
theorem new_one_holds_two :
    ¬(tailAfter 1 (some 0) pushedTwice).logs.entries.length =
      min (pushed pushedTwice).length 1 := by
  decide

end RelayPubsub
