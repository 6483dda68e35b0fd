import RelayPubsub.Model

/-!
# Gateway authorization

The tenant mapping of `src/auth.rs`: an authenticated caller has a list of
projects it may act in, and a resource belongs to the project its name starts
with. Who the caller is – the bearer token, the verification of a JWT – is an
input of the model.
-/

namespace RelayPubsub

open Lib

structure AuthContext where
  subject : Text
  /-- Empty when all projects are allowed. -/
  allowedProjects : List Text

/-- The project a resource name starts with, `projects/{id}/...`. -/
def projectOf (resource : Text) : Option Text :=
  match resource.splitOn '/' with
  | first :: id :: _ =>
    if first = "projects".toList then some ("projects/".toList ++ id) else none
  | _ => none

def authorizeResource (ctx : AuthContext) (resource : Text) : Except Text Unit :=
  if ctx.allowedProjects = [] then .ok ()
  else
    match projectOf resource with
    | none => .error ("cannot derive project from resource " ++ resource)
    | some project =>
      if ∃ p ∈ ctx.allowedProjects, p = project ∨ p = "*".toList then .ok ()
      else .error ("project " ++ project ++ " not allowed for " ++ ctx.subject)

/-- **The name of a project**, `projects/<id>`. -/
def projectName (id : Text) : Text := "projects/".toList ++ id

/-- Two projects of one name have one id. -/
theorem projectName_injective : Function.Injective projectName :=
  List.append_right_injective _

section Project

variable {id rest : Text}

theorem projectName_eq (id : Text) : projectName id = "projects".toList ++ '/' :: id := by
  have hslash : "projects/".toList = "projects".toList ++ ['/'] := by decide +kernel
  unfold projectName
  rw [hslash, List.append_assoc, List.cons_append, List.nil_append]

theorem projectName_append (a b : Text) : projectName (a ++ b) = projectName a ++ b :=
  (List.append_assoc _ a b).symm

theorem slash_notMem_projects : '/' ∉ "projects".toList := by decide +kernel

/-- A name below a project, taken apart at the slashes. -/
theorem splitOn_below (hid : '/' ∉ id) :
    (projectName id ++ '/' :: rest).splitOn '/' =
      "projects".toList :: id :: rest.splitOn '/' := by
  rw [projectName_eq, List.append_assoc, List.cons_append,
    List.splitOn_append_cons_self_of_not_mem slash_notMem_projects,
    List.splitOn_append_cons_self_of_not_mem hid]

/-- The first two segments of a name are its project. -/
theorem projectOf_of_splitOn {resource : Text} {segments : List Text}
    (h : resource.splitOn '/' = "projects".toList :: id :: segments) :
    projectOf resource = some (projectName id) := by
  unfold projectOf
  rw [h]
  exact if_pos rfl

/-- **What is named below a project belongs to it.** -/
theorem projectOf_below (hid : '/' ∉ id) :
    projectOf (projectName id ++ '/' :: rest) = some (projectName id) :=
  projectOf_of_splitOn (splitOn_below hid)

/-- A project belongs to itself. -/
theorem projectOf_projectName (hid : '/' ∉ id) :
    projectOf (projectName id) = some (projectName id) := by
  have hsplit : (projectName id).splitOn '/' = ["projects".toList, id] := by
    rw [projectName_eq, List.splitOn_append_cons_self_of_not_mem slash_notMem_projects,
      List.splitOn_eq_singleton hid]
  exact projectOf_of_splitOn hsplit

/-- **What is named below a resource belongs to its project.** -/
theorem projectOf_append {resource project : Text} (h : projectOf resource = some project) :
    projectOf (resource ++ '/' :: rest) = some project := by
  unfold projectOf at h ⊢
  rw [List.splitOn_append_cons_self]
  split at h
  · rename_i first id' segments hsplit
    rw [hsplit]
    exact h
  · cases h

/-- A resource belongs to the project it belongs to without a slash at its end,
unless it is `projects` then. -/
theorem projectOf_of_slash {resource project : Text}
    (h : projectOf (resource ++ ['/']) = some project) :
    projectOf resource = some project ∨ resource = "projects".toList := by
  unfold projectOf at h ⊢
  rw [List.splitOn_append_cons_self, List.splitOn_nil] at h
  rcases hsplit : resource.splitOn '/' with - | ⟨first, - | ⟨id', segments⟩⟩
  · exact absurd hsplit (List.splitOn_ne_nil _ _)
  · rw [hsplit] at h
    dsimp only [List.cons_append, List.nil_append] at h
    split at h
    · rename_i hfirst
      exact Or.inr ((eq_of_splitOn_singleton hsplit).trans hfirst)
    · cases h
  · rw [hsplit] at h
    exact Or.inl h

/-- **A caller with a list of projects is authorized in these only.** -/
theorem authorizeResource_ok_iff {ctx : AuthContext} {resource : Text}
    (hprojects : ctx.allowedProjects ≠ []) (hstar : "*".toList ∉ ctx.allowedProjects) :
    authorizeResource ctx resource = .ok () ↔
      ∃ project ∈ ctx.allowedProjects, projectOf resource = some project := by
  unfold authorizeResource
  rw [if_neg hprojects]
  split
  · rename_i hnone
    simp [hnone]
  · rename_i project hproject
    rw [hproject]
    split_ifs with hex
    · refine iff_of_true rfl ?_
      obtain ⟨p, hp, rfl | rfl⟩ := hex
      · exact ⟨p, hp, rfl⟩
      · exact absurd hp hstar
    · refine iff_of_false (by simp) ?_
      rintro ⟨p, hp, heq⟩
      exact hex ⟨p, hp, Or.inl (Option.some.inj heq).symm⟩

end Project

/-! ### What a caller is allowed on -/

/-- **The caller is allowed in the project of the resource.** -/
def Allowed (ctx : AuthContext) (resource : Text) : Prop := authorizeResource ctx resource = .ok ()

instance (ctx : AuthContext) (resource : Text) : Decidable (Allowed ctx resource) :=
  match h : authorizeResource ctx resource with
  | .ok () => .isTrue h
  | .error _ => .isFalse fun hok => nomatch h.symm.trans hok

section Allowed

variable {ctx : AuthContext} {resource resource' : Text}

/-- An empty list of projects allows everything. -/
theorem allowed_of_nil (h : ctx.allowedProjects = []) : Allowed ctx resource := by
  unfold Allowed authorizeResource
  rw [if_pos h]

/-- Otherwise what is allowed is in a project. -/
theorem Allowed.exists_project (h : Allowed ctx resource)
    (hprojects : ctx.allowedProjects ≠ []) : ∃ project, projectOf resource = some project := by
  rcases hproject : projectOf resource with - | project
  · unfold Allowed authorizeResource at h
    rw [if_neg hprojects, hproject] at h
    cases h
  · exact ⟨project, rfl⟩

/-- Whether a caller is allowed on a resource is a matter of its project. -/
theorem Allowed.of_projectOf_eq (h : Allowed ctx resource)
    (hproject : projectOf resource' = projectOf resource) : Allowed ctx resource' := by
  unfold Allowed authorizeResource at h ⊢
  split at h
  · rename_i hnil
    rw [if_pos hnil]
  rename_i hnil
  rw [if_neg hnil, hproject]
  split at h
  · cases h
  · split at h
    · rename_i hex
      rw [if_pos hex]
    · cases h

/-- A caller is allowed below what it is allowed on. -/
theorem Allowed.append (h : Allowed ctx resource) (rest : Text) :
    Allowed ctx (resource ++ '/' :: rest) := by
  rcases eq_or_ne ctx.allowedProjects [] with hnil | hprojects
  · exact allowed_of_nil hnil
  · obtain ⟨project, hproject⟩ := h.exists_project hprojects
    exact h.of_projectOf_eq ((projectOf_append hproject).trans hproject.symm)

end Allowed

end RelayPubsub
