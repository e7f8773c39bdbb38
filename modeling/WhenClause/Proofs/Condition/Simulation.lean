import WhenClause.Proofs.Condition.Translation
import WhenClause.Proofs.Evaluation.Simulation

set_option autoImplicit false

/-! # Conditions over related hosts

A condition asks its host for nothing but commands, and for none but those it names. Two hosts that
run these alike check the condition alike, with the errors of its malformed parts on both sides. -/

namespace WhenClause.Condition

variable {m n : Type → Type} [Monad m] [Monad n] {S : Simulation m n} {host : Host m}
  {other : Host n}

/-- The names that the check of a leaf may invoke: those of a call and of a context, and that of an
operator unless it compares. -/
def commandNames : Condition → List String
  | .call c => [c.name]
  | .comparison context operator _ =>
      context.name :: if (comparisonOperator? operator.name).isNone then [operator.name] else []
  | _ => []

/-- The commands of one name are run alike. -/
def RunAlike (S : Simulation m n) (host : Host m) (other : Host n) (name : String) : Prop :=
  ∀ args, S.rel Eq (host.invoke name args) (other.invoke name args)

theorem checkComparison_simulated {context operator : Call} {right : Value}
    (h : ∀ name ∈ commandNames (.comparison context operator right), RunAlike S host other name) :
    S.rel Eq (checkComparison host context operator right)
      (checkComparison other context operator right) := by
  rw [commandNames, List.forall_mem_cons] at h
  obtain ⟨hcontext, hoperator⟩ := h
  unfold checkComparison
  refine S.bind_rel (hcontext context.args) ?_
  rintro left _ rfl
  cases hop : comparisonOperator? operator.name with
  | some op =>
      refine S.bind_rel (P := Eq) (S.pure_rel rfl) ?_
      rintro outcome _ rfl
      exact S.pure_rel rfl
  | none =>
      have hcommand : RunAlike S host other operator.name := hoperator _ (by simp [hop])
      refine S.bind_rel (hcommand _) ?_
      rintro v _ rfl
      refine S.bind_rel (P := Eq) (S.pure_rel rfl) ?_
      rintro outcome _ rfl
      exact S.pure_rel rfl

mutual

/-- **Hosts that run the commands of a condition alike check it alike**, if the errors of its
malformed parts are permitted. -/
theorem check_simulated_of_names (c : Condition)
    (h : ∀ leaf ∈ c.leaves, ∀ name ∈ leaf.commandNames, RunAlike S host other name)
    (hfaults : ∀ leaf ∈ c.leaves, ∀ e, leaf.fault? = some e → S.throws e) :
    S.rel Eq (check host c) (check other c) := by
  match c with
  | .anyOf groups =>
      rw [check, check]
      exact checkAny_simulated groups h hfaults
  | .call c =>
      rw [check, check]
      have hcall : RunAlike S host other c.name :=
        h (.call c) List.mem_cons_self c.name List.mem_cons_self
      refine S.bind_rel (hcall c.args) ?_
      rintro v _ rfl
      exact S.pure_rel rfl
  | .comparison context operator right =>
      rw [check, check]
      exact checkComparison_simulated (h _ List.mem_cons_self)
  | .fault e =>
      rw [check, check]
      exact S.throw_rel (hfaults (.fault e) List.mem_cons_self e rfl)

theorem checkAny_simulated (groups : List (List Condition))
    (h : ∀ leaf ∈ groupLeaves groups, ∀ name ∈ leaf.commandNames, RunAlike S host other name)
    (hfaults : ∀ leaf ∈ groupLeaves groups, ∀ e, leaf.fault? = some e → S.throws e) :
    S.rel Eq (checkAny host groups) (checkAny other groups) := by
  match groups with
  | [] =>
      rw [checkAny, checkAny]
      exact S.pure_rel rfl
  | group :: rest =>
      obtain ⟨hgroup, hrest⟩ := List.forall_mem_append.mp h
      obtain ⟨hgroupFaults, hrestFaults⟩ := List.forall_mem_append.mp hfaults
      rw [checkAny, checkAny]
      refine S.bind_rel (checkAll_simulated group hgroup hgroupFaults) ?_
      rintro holds _ rfl
      cases holds with
      | true => exact S.pure_rel rfl
      | false => exact checkAny_simulated rest hrest hrestFaults

theorem checkAll_simulated (parts : List Condition)
    (h : ∀ leaf ∈ partLeaves parts, ∀ name ∈ leaf.commandNames, RunAlike S host other name)
    (hfaults : ∀ leaf ∈ partLeaves parts, ∀ e, leaf.fault? = some e → S.throws e) :
    S.rel Eq (checkAll host parts) (checkAll other parts) := by
  match parts with
  | [] =>
      rw [checkAll, checkAll]
      exact S.pure_rel rfl
  | part :: rest =>
      obtain ⟨hpart, hrest⟩ := List.forall_mem_append.mp h
      obtain ⟨hpartFaults, hrestFaults⟩ := List.forall_mem_append.mp hfaults
      rw [checkAll, checkAll]
      refine S.bind_rel (check_simulated_of_names part hpart hpartFaults) ?_
      rintro holds _ rfl
      cases holds with
      | true => exact checkAll_simulated rest hrest hrestFaults
      | false => exact S.pure_rel rfl

end

/-- Related hosts check every condition alike, if the errors of its malformed parts are
permitted. -/
theorem check_simulated (h : ∀ name, RunAlike S host other name) (c : Condition)
    (hfaults : ∀ leaf ∈ c.leaves, ∀ e, leaf.fault? = some e → S.throws e) :
    S.rel Eq (check host c) (check other c) :=
  check_simulated_of_names c (fun _ _ name _ => h name) hfaults

end WhenClause.Condition
