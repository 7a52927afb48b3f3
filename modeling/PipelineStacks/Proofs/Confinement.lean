import PipelineStacks.Proofs.Deletion
import PipelineStacks.Proofs.Glimpse
import PipelineStacks.Proofs.Presence

/-!
# Are writes confined?

Only assets of two groups may be installed, and only assets of three kinds may go to a namespace
other than that of the stack.  Neither holds of all requests that write.

The group is checked when an object is created, of the asset that is created.  Objects are adopted
and given up in the group that is recorded, which may be any that an archive names
(`writes_are_allowed_iff`).  The namespace is that of the record, but an object is created of the
last asset of the same name (`writes_elsewhere_are_self_placed_iff`).  Both theorems are about all
passes that a stack can come to, and say of archives for which of them the requests are confined.
-/

namespace PipelineStacks

/-- Only assets of the self-placed kinds go to another namespace. -/
lemma Asset.mem_selfPlacedKinds_of_placement {m : Asset} {target : String}
    (h : m.placement target ≠ target) : m.kind.name ∈ Asset.selfPlacedKinds := by
  simp only [placement] at h
  split at h
  · next hown => simpa using hown.1
  · exact (h rfl).elim

namespace Stack

/-! ## Groups -/

/-- Objects are created in the allowed groups only.  All requests that write are about the allowed
groups exactly if no archive may be found to hold an asset of another group. -/
theorem writes_are_allowed_iff (s : Stack) (served : Source → Set Bytes) :
    (∀ kind ns o, s.Issues served (.create kind ns o) → Asset.isAllowedGroup kind.group) ∧
    ((∀ e kind ns, s.Issues served e → e.writesTo? = some (kind, ns) →
        Asset.isAllowedGroup kind.group) ↔
      ∀ p found, s.Offered served (.ofSpec p) found → ∀ m ∈ found,
        Asset.isAllowedGroup m.kind.group) := by
  have hcreate : ∀ e kind ns, s.Issues served e → e.writesTo? = some (kind, ns) →
      e.isCreate = true → Asset.isAllowedGroup kind.group := by
    intro e kind ns hissued hwrites hcreates
    obtain ⟨target, -, p, found, m, -, -, -, horigin⟩ := issued_cases hissued hwrites
    rw [if_pos hcreates] at horigin
    obtain ⟨found', m', -, hm', rfl⟩ := horigin
    exact Asset.isAllowedGroup_of_offered hm'
  refine ⟨fun kind ns o hissued => hcreate _ kind ns hissued rfl rfl, fun hall => ?_,
    fun hall => ?_⟩
  · intro p found hfound m hm
    obtain ⟨spec, a, -, ha, -⟩ := id hfound
    obtain ⟨-, hns, -⟩ := activation_eq_ok ha
    obtain ⟨o, hissued⟩ := issues_update hfound hm hns
    exact hall _ m.kind _ hissued rfl
  · intro e kind ns hissued hwrites
    by_cases hcreates : e.isCreate = true
    · exact hcreate e kind ns hissued hwrites hcreates
    · obtain ⟨target, -, p, found, m, hfound, hm, -, horigin⟩ := issued_cases hissued hwrites
      rw [if_neg hcreates] at horigin
      rw [← horigin]
      exact hall p found hfound m hm

/-- The kind of a deployment, which is of neither of the allowed groups. -/
def deploymentKind : Kind :=
  ⟨"apps", "v1", "Deployment"⟩

/-- An archive that holds a deployment. -/
def sneakyArchive : String :=
  "apiVersion: apps/v1\nkind: Deployment\nmetadata:\n  name: sneaky\n"

/-- The store in which such a deployment was put by somebody else. -/
def deploymentStore : Objects :=
  Objects.set (fun _ => none) ⟨deploymentKind, "kabanero", "sneaky"⟩
    (some { metadata := { name := some "sneaky", namespaceName := some "kabanero" } })

set_option maxRecDepth 100000 in
/-- A first pass over the archive adopts the deployment, and when nothing is asked for any more the
next pass deletes it, though deployments are not of an allowed group. -/
theorem deployment_is_adopted_and_deleted :
    let world := (quiet sneakyArchive).world
    let adopting := (asking [.ofUrl "https://e.com/p.yaml"] []).reconcile
    let done := adopting.run world (deploymentStore, ())
    Asset.isAllowedGroup deploymentKind.group = false ∧
    (adopting.log world (deploymentStore, ())).filterMap (·.1.writesTo?) =
      [(deploymentKind, "kabanero")] ∧
    done.1.map (fun status =>
      ((asking [] status.versions).reconcile.log world done.2).filterMap (·.1.deletedKey?)) =
        .ok [⟨deploymentKind, "kabanero", "sneaky"⟩] := by
  decide +kernel

/-! ## Namespaces -/

/-- Outside the namespace of the stack only objects of the self-placed kinds are replaced or
deleted.  All requests that write there are about these kinds exactly if, whenever an archive may be
found to hold an asset that goes to another namespace, the last asset of the same name that it may
be found to hold, if that may be installed, is of these kinds. -/
theorem writes_elsewhere_are_self_placed_iff (s : Stack) (served : Source → Set Bytes) :
    (∀ e kind ns, s.Issues served e → e.writesTo? = some (kind, ns) → e.isCreate = false →
      s.metadata.namespaceName ≠ some ns → kind.name ∈ Asset.selfPlacedKinds) ∧
    ((∀ e kind ns, s.Issues served e → e.writesTo? = some (kind, ns) →
        s.metadata.namespaceName ≠ some ns → kind.name ∈ Asset.selfPlacedKinds) ↔
      ∀ target p found found', s.metadata.namespaceName = some target →
        s.Offered served (.ofSpec p) found → s.Offered served (.ofSpec p) found' →
          ∀ m ∈ found, m.placement target ≠ target →
            ∀ m', Asset.offered found' m.name = .ok m' →
              m'.kind.name ∈ Asset.selfPlacedKinds) := by
  have hkept : ∀ e kind ns, s.Issues served e → e.writesTo? = some (kind, ns) →
      e.isCreate = false → s.metadata.namespaceName ≠ some ns →
        kind.name ∈ Asset.selfPlacedKinds := by
    intro e kind ns hissued hwrites hkeeps helsewhere
    obtain ⟨target, htarget, p, found, m, -, -, rfl, horigin⟩ := issued_cases hissued hwrites
    rw [hkeeps] at horigin
    obtain rfl : m.kind = kind := horigin
    have hplaced : m.placement target ≠ target := fun hsame => helsewhere (by rw [hsame, htarget])
    exact Asset.mem_selfPlacedKinds_of_placement hplaced
  refine ⟨hkept, fun hall => ?_, fun hall => ?_⟩
  · intro target p found found' htarget hfound hfound' m hm helsewhere m' hm'
    obtain ⟨o, hissued⟩ := issues_create hfound hm hfound' hm' htarget
    refine hall _ m'.kind _ hissued rfl fun hsame => helsewhere ?_
    exact Option.some.inj (hsame.symm.trans htarget)
  · intro e kind ns hissued hwrites helsewhere
    cases hcreates : e.isCreate with
    | false => exact hkept e kind ns hissued hwrites hcreates helsewhere
    | true =>
      obtain ⟨target, htarget, p, found, m, hfound, hm, rfl, horigin⟩ :=
        issued_cases hissued hwrites
      rw [if_pos hcreates] at horigin
      obtain ⟨found', m', hfound', hm', rfl⟩ := horigin
      have hplaced : m.placement target ≠ target :=
        fun hsame => helsewhere (by rw [hsame, htarget])
      exact hall target p found found' htarget hfound hfound' m hm hplaced m' hm'

/-- An archive that holds a trigger binding for another namespace and a task of the same name. -/
def bindingAndTask : String :=
  "apiVersion: triggers.tekton.dev/v1alpha1\nkind: TriggerBinding\nmetadata:\n  name: a\n" ++
    "  namespace: other\n---\n" ++ document "Task" "a"

set_option maxRecDepth 100000 in
/-- A pass over the archive creates the task in the other namespace, though tasks are not
self-placed. -/
theorem task_is_created_elsewhere :
    ((asking [.ofUrl "https://e.com/p.yaml"] []).reconcile.log (quiet bindingAndTask).world
      (fun _ => none, ())).filterMap (·.1.writesTo?) =
        [(taskKind, "other"), (taskKind, "kabanero")] ∧
    (asking [.ofUrl "https://e.com/p.yaml"] []).metadata.namespaceName ≠ some "other" ∧
    taskKind.name ∉ Asset.selfPlacedKinds := by
  decide +kernel

end Stack

end PipelineStacks
