import RelayPubsub.Rest.Dispatch

/-!
# The project a request is authorized for

A request on a path below a project acts in that project
(`RelayPubsub.Rest.projectOf_dispatched`): the handlers cut a verb off the path,
or take the path, or its first two segments. Whether it has been authorized for
that project is another matter (`RelayPubsub.Rest.authorizes_project_iff`): the
resource for authorization ends at the first colon of the path, wherever that is,
and on some paths without a colon it is taken from the body.
-/

namespace RelayPubsub.Rest

open Lib

/-! ### The project acted in -/

/-- The request is for that resource, if it leads to a call. -/
def For (resource : Text) (e : Except Response Dispatched) : Prop :=
  ∀ d, e = .ok d → d.resource = resource

section For

variable {resource : Text}

theorem For.ok (call : BackendCall) : For resource (.ok ⟨resource, call⟩) := by
  rintro d h
  rw [← Except.ok.inj h]

theorem For.error (response : Response) : For resource (.error response) := by
  rintro d h
  cases h

theorem For.map {α : Type} (e : Except Response α) (call : α → BackendCall) :
    For resource (e.map fun a => ⟨resource, call a⟩) := by
  cases e with
  | error response => exact For.error response
  | ok a => exact For.ok (call a)

end For

section Dispatched

variable {codecs : Codecs} {path : Text} {value : Value} {now : Time} {method : Method}
  {query : Text} {d : Dispatched}

theorem handleModifyAckDeadline_for :
    For (trimEndMatches ":modifyAckDeadline".toList path) (handleModifyAckDeadline path value) := by
  unfold handleModifyAckDeadline
  dsimp only
  split_ifs
  · exact For.error _
  · exact For.ok _

theorem handleSeek_for :
    For (trimEndMatches ":seek".toList path) (handleSeek codecs path value) := by
  unfold handleSeek
  dsimp only
  split
  · exact For.ok _
  · split
    · exact For.ok _
    · exact For.error _

theorem handleValidateMessage_for :
    For (trimEndMatches ":validateMessage".toList path)
      (handleValidateMessage codecs path value) := by
  unfold handleValidateMessage
  dsimp only
  split
  · exact For.error _
  · split
    · exact For.ok _
    · split
      · exact For.ok _
      · exact For.error _

/-- One test of a chain: either it decides, or the rest of the chain does. -/
theorem of_ite_eq {α : Type} {c P : Prop} [Decidable c] {a b x : α}
    (h : (if c then a else b) = x) (ha : c → a = x → P) (hb : b = x → P) : P := by
  by_cases hc : c
  · exact ha hc ((if_pos hc).symm.trans h)
  · exact hb ((if_neg hc).symm.trans h)

/-- **A request with a verb acts on the path without the verb**; the others are
requests on resources. -/
theorem dispatch_cases (h : dispatch codecs path value now method query = .ok d) :
    (∃ verb, '/' ∉ verb ∧ d.resource = trimEndMatches verb path) ∨
      handleResourceRequest codecs path value now method query = .ok d := by
  unfold dispatch at h
  refine of_ite_eq h (fun _ h => Or.inl ⟨_, by decide +kernel, For.map _ _ d h⟩) fun h => ?_
  refine of_ite_eq h (fun _ h => Or.inl ⟨_, by decide +kernel, For.ok _ d h⟩) fun h => ?_
  refine of_ite_eq h (fun _ h => Or.inl ⟨_, by decide +kernel, For.ok _ d h⟩) fun h => ?_
  refine of_ite_eq h
    (fun _ h => Or.inl ⟨_, by decide +kernel, handleModifyAckDeadline_for d h⟩) fun h => ?_
  refine of_ite_eq h (fun _ h => Or.inl ⟨_, by decide +kernel, handleSeek_for d h⟩) fun h => ?_
  refine of_ite_eq h (fun _ h => Or.inl ⟨_, by decide +kernel, For.ok _ d h⟩) fun h => ?_
  refine of_ite_eq h (fun _ h => Or.inl ⟨_, by decide +kernel, For.ok _ d h⟩) fun h => ?_
  refine of_ite_eq h (fun _ h => Or.inl ⟨_, by decide +kernel, For.ok _ d h⟩) fun h => ?_
  refine of_ite_eq h (fun _ h => Or.inl ⟨_, by decide +kernel, For.ok _ d h⟩) fun h => ?_
  refine of_ite_eq h (fun _ h => Or.inl ⟨_, by decide +kernel, For.ok _ d h⟩) fun h => ?_
  refine of_ite_eq h
    (fun _ h => Or.inl ⟨_, by decide +kernel, handleValidateMessage_for d h⟩) fun h => ?_
  exact Or.inr h

/-- **A request on resources acts on the path**, on the project it starts with,
or on the topic whose subscriptions are listed. -/
theorem handleResourceRequest_cases {id rest : Text} (hid : '/' ∉ id)
    (h : handleResourceRequest codecs (projectName id ++ '/' :: rest) value now method query =
      .ok d) :
    d.resource = projectName id ++ '/' :: rest ∨ d.resource = projectName id ∨
      ∃ z, rest = "topics".toList ++ '/' :: z ∧
        d.resource =
          trimEndMatches "/subscriptions".toList (projectName id ++ '/' :: rest) := by
  unfold handleResourceRequest at h
  rw [splitOn_below hid] at h
  rcases hrest : rest.splitOn '/' with - | ⟨kind, more⟩
  · exact absurd hrest (List.splitOn_ne_nil _ _)
  rw [hrest] at h
  dsimp only at h
  have hlist : ∀ call, Except.ok ⟨"projects/".toList ++ id, call⟩ = Except.ok (ε := Response) d →
      d.resource = projectName id := fun call => For.ok call d
  have hpath : ∀ call, Except.ok ⟨projectName id ++ '/' :: rest, call⟩ =
      Except.ok (ε := Response) d → d.resource = projectName id ++ '/' :: rest :=
    fun call => For.ok call d
  rw [if_neg (not_not_intro rfl)] at h
  -- the listings of the project
  refine of_ite_eq h (fun _ h => Or.inr (Or.inl (hlist _ h))) fun h => ?_
  refine of_ite_eq h (fun _ h => Or.inr (Or.inl (hlist _ h))) fun h => ?_
  refine of_ite_eq h (fun _ h => Or.inr (Or.inl (hlist _ h))) fun h => ?_
  refine of_ite_eq h (fun _ h => Or.inr (Or.inl (hlist _ h))) fun h => ?_
  -- the listing of the subscriptions of a topic
  refine of_ite_eq h (fun hcond hcall => ?_) fun h => ?_
  · obtain ⟨hlen, rfl, -, -⟩ := hcond
    obtain ⟨y, l, rfl⟩ := List.exists_cons_of_length_eq_add_one hlen
    obtain ⟨z, hz⟩ := append_of_splitOn hrest
    exact Or.inr (Or.inr ⟨z, hz, For.ok _ d hcall⟩)
  -- topics, subscriptions, snapshots and schemas
  refine Or.inl (of_ite_eq h (fun _ h => ?_) fun h => ?_)
  · split at h
    · exact hpath _ h
    · exact hpath _ h
    · exact hpath _ h
    · exact hpath _ h
    · cases h
  refine of_ite_eq h (fun _ h => ?_) fun h => ?_
  · split at h
    · exact For.map _ _ d h
    · exact For.map _ _ d h
    · exact hpath _ h
    · exact hpath _ h
    · cases h
  refine of_ite_eq h (fun _ h => ?_) fun h => ?_
  · split at h
    · split at h
      · cases h
      · exact hpath _ h
    · exact hpath _ h
    · exact hpath _ h
    · exact hpath _ h
    · cases h
  refine of_ite_eq h (fun _ h => ?_) fun h => ?_
  · split at h
    · exact hpath _ h
    · exact hpath _ h
    · exact hpath _ h
    · cases h
  cases h

/-- **A request on a path below a project acts in that project.** -/
theorem projectOf_dispatched {id rest : Text} (hid : '/' ∉ id)
    (h : dispatch codecs (projectName id ++ '/' :: rest) value now method query = .ok d) :
    projectOf d.resource = some (projectName id) := by
  rcases dispatch_cases h with ⟨verb, hverb, hd⟩ | h
  · obtain ⟨y, hy⟩ := trimEndMatches_keeps hverb (projectName id) rest
    rw [hd, hy, projectOf_below hid]
  · rcases handleResourceRequest_cases hid h with hd | hd | ⟨z, rfl, hd⟩
    · rw [hd, projectOf_below hid]
    · rw [hd, projectOf_projectName hid]
    · have hpattern : "/subscriptions".toList = '/' :: "subscriptions".toList := by decide +kernel
      have hkept : ∃ y, trimEndMatches ('/' :: "subscriptions".toList)
          (projectName id ++ '/' :: ("topics".toList ++ '/' :: z)) =
            projectName id ++ '/' :: ("topics".toList ++ y) :=
        trimEndMatches_segment (by decide +kernel) (by decide +kernel) (by decide +kernel) _ z
      obtain ⟨y, hy⟩ := hkept
      rw [hd, hpattern, hy, projectOf_below hid]

end Dispatched

/-! ### The project authorized for -/

/-- **The resource for authorization is in the project of the path**: a colon in
the path comes after the project; and on a path without a colon that names no
collection, the body names no resource of another project. -/
def AuthFollowsPath (id rest : Text) (body : Value) : Prop :=
  let path := projectName id ++ '/' :: rest
  if ':' ∈ path then ':' ∉ id
  else
    EndsWith path "/topics" ∨ EndsWith path "/subscriptions" ∨ EndsWith path "/snapshots" ∨
      EndsWith path "/schemas" ∨
      ∀ resource, body.getStr "resource" = some resource →
        projectOf resource = some (projectName id)

section Authorized

variable {id rest : Text} {body : Value}

theorem colon_mem_projectName : ':' ∈ projectName id ↔ ':' ∈ id := by
  have hcolon : ':' ∉ "projects/".toList := by decide +kernel
  unfold projectName
  rw [List.mem_append]
  exact or_iff_right hcolon

/-- A path with a colon is cut there. -/
theorem projectOf_authResource_of_colon (hid : '/' ∉ id)
    (hcolon : ':' ∈ projectName id ++ '/' :: rest) :
    projectOf (authResourceForPath (projectName id ++ '/' :: rest) body) = some (projectName id) ↔
      ':' ∉ id := by
  by_cases h : ':' ∈ id
  · -- the first colon is in the id, and the project ends there
    refine iff_of_false ?_ (not_not_intro h)
    obtain ⟨a, b, rfl, ha⟩ := List.eq_append_cons_of_mem h
    have hpath : projectName (a ++ ':' :: b) ++ '/' :: rest =
        projectName a ++ ':' :: (b ++ '/' :: rest) := by
      rw [projectName_append, List.append_assoc, List.cons_append]
    have hauth : authResourceForPath (projectName (a ++ ':' :: b) ++ '/' :: rest) body =
        projectName a := by
      unfold authResourceForPath
      rw [hpath, splitOnce_append (colon_mem_projectName.not.mpr ha)]
    have hslash : '/' ∉ a := fun hmem => hid (List.mem_append_left _ hmem)
    rw [hauth, projectOf_projectName hslash]
    intro heq
    have hlen := congrArg List.length (projectName_injective (Option.some.inj heq))
    simp at hlen
  · -- the first colon is behind the project
    refine iff_of_true ?_ h
    have hrest : ':' ∈ rest := by
      rcases List.mem_append.mp hcolon with hmem | hmem
      · exact absurd (colon_mem_projectName.mp hmem) h
      · exact (List.mem_cons.mp hmem).resolve_left (by decide)
    obtain ⟨a, b, rfl, ha⟩ := List.eq_append_cons_of_mem hrest
    have hbefore : ':' ∉ projectName id ++ '/' :: a := by
      simp [colon_mem_projectName, h, ha]
    have hpath : projectName id ++ '/' :: (a ++ ':' :: b) =
        (projectName id ++ '/' :: a) ++ ':' :: b := by
      simp
    have hauth : authResourceForPath (projectName id ++ '/' :: (a ++ ':' :: b)) body =
        projectName id ++ '/' :: a := by
      unfold authResourceForPath
      rw [hpath, splitOnce_append hbefore]
    rw [hauth, projectOf_below hid]

/-- The path of a collection stands for its project. -/
theorem authResource_of_collection (hid : '/' ∉ id)
    (hcolon : ':' ∉ projectName id ++ '/' :: rest)
    (hends : EndsWith (projectName id ++ '/' :: rest) "/topics" ∨
      EndsWith (projectName id ++ '/' :: rest) "/subscriptions" ∨
      EndsWith (projectName id ++ '/' :: rest) "/snapshots") :
    authResourceForPath (projectName id ++ '/' :: rest) body = projectName id := by
  have hdrop : (projectName id ++ '/' :: rest).dropPrefix? "projects/".toList =
      some (id ++ '/' :: rest) := by
    refine List.dropPrefix?_eq_some_iff.mpr ⟨_, ?_, beq_self_eq_true _⟩
    exact List.append_assoc _ _ _
  unfold authResourceForPath
  rw [splitOnce_eq_none hcolon]
  dsimp only
  rw [if_pos hends, hdrop, Option.bind_some, List.splitOn_append_cons_self_of_not_mem hid,
    List.head?_cons]
  rfl

/-- The path of the schemas of a project stands for itself. -/
theorem authResource_of_schemas (hcolon : ':' ∉ projectName id ++ '/' :: rest)
    (hends : ¬(EndsWith (projectName id ++ '/' :: rest) "/topics" ∨
      EndsWith (projectName id ++ '/' :: rest) "/subscriptions" ∨
      EndsWith (projectName id ++ '/' :: rest) "/snapshots"))
    (hschemas : EndsWith (projectName id ++ '/' :: rest) "/schemas") :
    authResourceForPath (projectName id ++ '/' :: rest) body = projectName id ++ '/' :: rest := by
  unfold authResourceForPath
  rw [splitOnce_eq_none hcolon]
  dsimp only
  rw [if_neg hends, if_neg fun h => hends (Or.inr (Or.inl h.2)), if_pos hschemas.isInfix,
    List.splitOn_eq_singleton hcolon, List.head?_cons, Option.filter_some,
    if_pos (decide_eq_true hschemas)]

/-- On another path, a resource named by the body comes first. -/
theorem authResource_of_body (hcolon : ':' ∉ projectName id ++ '/' :: rest)
    (hends : ¬(EndsWith (projectName id ++ '/' :: rest) "/topics" ∨
      EndsWith (projectName id ++ '/' :: rest) "/subscriptions" ∨
      EndsWith (projectName id ++ '/' :: rest) "/snapshots"))
    (hschemas : ¬EndsWith (projectName id ++ '/' :: rest) "/schemas") :
    authResourceForPath (projectName id ++ '/' :: rest) body =
      (body.getStr "resource").getD (projectName id ++ '/' :: rest) := by
  have hfilter : (some (projectName id ++ '/' :: rest)).filter
      (fun parent => decide (EndsWith parent "/schemas")) = none := by
    rw [Option.filter_some, if_neg fun h => hschemas (of_decide_eq_true h)]
  unfold authResourceForPath
  rw [splitOnce_eq_none hcolon]
  dsimp only
  rw [if_neg hends, if_neg fun h => hends (Or.inr (Or.inl h.2)),
    List.splitOn_eq_singleton hcolon, List.head?_cons, hfilter, ite_self]

/-- **When the resource for authorization is in the project of the path.** -/
theorem projectOf_authResource_iff (hid : '/' ∉ id) :
    projectOf (authResourceForPath (projectName id ++ '/' :: rest) body) = some (projectName id) ↔
      AuthFollowsPath id rest body := by
  unfold AuthFollowsPath
  dsimp only
  split
  · rename_i hcolon
    exact projectOf_authResource_of_colon hid hcolon
  rename_i hcolon
  by_cases hends : EndsWith (projectName id ++ '/' :: rest) "/topics" ∨
      EndsWith (projectName id ++ '/' :: rest) "/subscriptions" ∨
      EndsWith (projectName id ++ '/' :: rest) "/snapshots"
  · rw [authResource_of_collection hid hcolon hends]
    refine iff_of_true (projectOf_projectName hid) ?_
    exact hends.imp_right fun h => h.imp_right Or.inl
  have hothers : ∀ P : Prop, (EndsWith (projectName id ++ '/' :: rest) "/topics" ∨
      EndsWith (projectName id ++ '/' :: rest) "/subscriptions" ∨
      EndsWith (projectName id ++ '/' :: rest) "/snapshots" ∨ P) ↔ P := by
    intro P
    rw [← or_assoc, ← or_assoc, or_iff_right]
    rwa [or_assoc]
  rw [hothers]
  by_cases hschemas : EndsWith (projectName id ++ '/' :: rest) "/schemas"
  · rw [authResource_of_schemas hcolon hends hschemas]
    exact iff_of_true (projectOf_below hid) (Or.inl hschemas)
  · rw [authResource_of_body hcolon hends hschemas, or_iff_right hschemas]
    rcases hbody : body.getStr "resource" with - | resource
    · exact iff_of_true (projectOf_below hid) fun _ h => by cases h
    · rw [Option.getD_some]
      refine ⟨fun h resource' heq => ?_, fun h => h resource rfl⟩
      rwa [← Option.some.inj heq]

end Authorized

/-- **A request is authorized for the project it acts in, exactly if the resource
for authorization follows the path.** -/
theorem authorizes_project_iff {codecs : Codecs} {id rest : Text} (hid : '/' ∉ id) {body : Value}
    {now : Time} {method : Method} {query : Text} {d : Dispatched}
    (h : dispatch codecs (projectName id ++ '/' :: rest) body now method query = .ok d) :
    projectOf (authResourceForPath (projectName id ++ '/' :: rest) body) = projectOf d.resource ↔
      AuthFollowsPath id rest body := by
  rw [projectOf_dispatched hid h]
  exact projectOf_authResource_iff hid

/-- Decoders that decode nothing but the empty base64 text. -/
def sampleCodecs : Codecs where
  serde :=
    { fromSlice := fun _ => .error "EOF while parsing a value at line 1 column 0"
      fromStr := fun _ => .error "EOF while parsing a value at line 1 column 0" }
  base64Decode := fun s => if s = [] then some [] else none
  parseFromRfc3339 := fun _ => none

/-- The call an answer holds. -/
theorem exists_dispatched {e : Except Response Dispatched} (h : e.toOption.isSome = true) :
    ∃ d, e = .ok d := by
  cases e with
  | error response => cases h
  | ok d => exact ⟨d, rfl⟩

/-- A pull, with the verb behind the project. -/
theorem pull_authorizes_project :
    ∃ d, dispatch sampleCodecs (projectName "p" ++ '/' :: "subscriptions/s:pull".toList)
        (.object []) 0 .post [] = .ok d ∧
      projectOf (authResourceForPath (projectName "p" ++ '/' :: "subscriptions/s:pull".toList)
        (.object [])) = projectOf d.resource := by
  obtain ⟨d, hd⟩ := exists_dispatched (e := dispatch sampleCodecs
    (projectName "p" ++ '/' :: "subscriptions/s:pull".toList) (.object []) 0 .post [])
    (by decide +kernel)
  refine ⟨d, hd, (authorizes_project_iff (by decide +kernel) hd).mpr ?_⟩
  unfold AuthFollowsPath
  rw [if_pos (by decide +kernel)]
  decide +kernel

/-- Two requests that act in one project and are authorized for another: the body
names a resource, or the project has a colon. -/
theorem request_authorized_elsewhere :
    (∃ d, dispatch sampleCodecs (projectName "a" ++ '/' :: "topics/t".toList)
        (.object [("resource", .string "projects/b")]) 0 .delete [] = .ok d ∧
      projectOf (authResourceForPath (projectName "a" ++ '/' :: "topics/t".toList)
        (.object [("resource", .string "projects/b")])) ≠ projectOf d.resource) ∧
    ∃ d, dispatch sampleCodecs (projectName "a:x" ++ '/' :: "subscriptions/s:pull".toList)
        (.object []) 0 .post [] = .ok d ∧
      projectOf (authResourceForPath (projectName "a:x" ++ '/' :: "subscriptions/s:pull".toList)
        (.object [])) ≠ projectOf d.resource := by
  constructor
  · obtain ⟨d, hd⟩ := exists_dispatched (e := dispatch sampleCodecs
      (projectName "a" ++ '/' :: "topics/t".toList)
      (.object [("resource", .string "projects/b")]) 0 .delete []) (by decide +kernel)
    refine ⟨d, hd, ?_⟩
    rw [projectOf_dispatched (by decide +kernel) hd]
    decide +kernel
  · obtain ⟨d, hd⟩ := exists_dispatched (e := dispatch sampleCodecs
      (projectName "a:x" ++ '/' :: "subscriptions/s:pull".toList) (.object []) 0 .post [])
      (by decide +kernel)
    refine ⟨d, hd, ?_⟩
    rw [projectOf_dispatched (by decide +kernel) hd]
    decide +kernel

end RelayPubsub.Rest
