import Adro.Orchestration.Runs
import Adro.Lib.Acyclic

/-!
# Paths of an accepted graph

The searches of `validateGraph` decide what they check: its two closures are exact, and
the edges without a traversal bound are on no cycle.
-/

namespace Adro.Orchestration

open Adro.Go Relation

variable {g : WorkflowGraph} {next : String → List String}

/-- Every node is reached from a seed along the edges, read from `src` to `dst`. -/
def WorkflowGraph.Covered (g : WorkflowGraph) (src dst : WorkflowEdge → String)
    (seeds : List String) : Prop :=
  ∀ n ∈ g.nodes, ∃ s ∈ seeds, ReflTransGen (fun a b => ∃ e ∈ g.edges, src e = a ∧ dst e = b) s n.id

theorem validateClosure_iff (src dst : WorkflowEdge → String)
    (hnext : ∀ a, next a = (g.edges.filter (src · = a)).map dst) :
    validateClosure g next seeds suffix = .ok () ↔ g.Covered src dst seeds := by
  have hmem : ∀ a b, b ∈ next a ↔ ∃ e ∈ g.edges, src e = a ∧ dst e = b := by
    simp [hnext, and_assoc]
  have hfuel : seeds.length + g.edges.countP (src · ∉ []) < seeds.length + g.edges.length + 1 :=
    Nat.lt_succ_of_le (Nat.add_le_add_left List.countP_le_length _)
  obtain ⟨hqueue, hclosed⟩ := closure_closed hnext hfuel (by simp)
  simp only [validateClosure, eachOk_ok, ensure_ok, List.contains_iff_mem]
  refine forall₂_congr fun n _ => ⟨fun h => ?_, fun ⟨s, hs, h⟩ => ?_⟩
  · refine closure_sound (P := fun b => ∃ s ∈ seeds, ReflTransGen _ s b) ?_
      (fun a ha => ⟨a, ha, .refl⟩) (by simp) n.id h
    rintro a ⟨s, hs, ha⟩ b hb
    exact ⟨s, hs, ha.tail ((hmem a b).1 hb)⟩
  · exact h.rec (hqueue s (.inr hs)) fun _ hbc ih => hclosed _ ih _ ((hmem _ _).2 hbc)

/-- The two closures decide what they check; an accepted graph has no cycle without a bound. -/
theorem graph_paths (g : WorkflowGraph) :
    (validateClosure g g.outgoing g.entryNodeIDs ".unreachable" = .ok () ↔
      g.Covered (·.fromID) (·.toID) g.entryNodeIDs) ∧
    (validateClosure g g.incoming g.exitNodeIDs ".no_exit_path" = .ok () ↔
      g.Covered (·.toID) (·.fromID) g.exitNodeIDs) ∧
    (validateGraph g = .ok () → g.Covered (·.fromID) (·.toID) g.entryNodeIDs ∧
      g.Covered (·.toID) (·.fromID) g.exitNodeIDs ∧
      Lib.Acyclic fun a b => ∃ e ∈ g.edges, e.maxTraversals < 1 ∧ e.fromID = a ∧ e.toID = b) := by
  have hin : validateClosure g g.outgoing g.entryNodeIDs ".unreachable" = .ok () ↔ _ :=
    validateClosure_iff (·.fromID) (·.toID) fun _ => rfl
  have hout : validateClosure g g.incoming g.exitNodeIDs ".no_exit_path" = .ok () ↔ _ :=
    validateClosure_iff (·.toID) (·.fromID) fun _ => rfl
  refine ⟨hin, hout, fun h => ?_⟩
  obtain ⟨rank, hr⟩ := validateGraph_ok h
  simp only [validateGraph, then_ok] at h
  obtain ⟨_, _, _, _, _, _, _, _, _, _, _, hentry, hexit, -⟩ := h
  refine ⟨hin.1 hentry, hout.1 hexit, fun a hcycle => ?_⟩
  have hfalls := hcycle.rec (motive := fun b _ => rank b < rank a) ?_ ?_
  · exact Nat.lt_irrefl _ hfalls
  · rintro b ⟨e, he, hb, rfl, rfl⟩
    exact hr.acyclic e he (by have := hr.bound_nonneg e he; omega)
  · rintro b c - ⟨e, he, hb, rfl, rfl⟩ ih
    exact (hr.acyclic e he (by have := hr.bound_nonneg e he; omega)).trans ih

/-- An agent whose work a second one may send back twice. -/
def reviewedGraph : WorkflowGraph :=
  { id := "g", version := 1, entryNodeIDs := ["a"], exitNodeIDs := ["b"]
    nodes := [agentNode "a", agentNode "b"]
    edges := [successEdge "ab" "a" "b",
      { id := "ba", fromID := "b", toID := "a", on := .failure, maxTraversals := 2 }] }

theorem reviewedGraph_paths :
    validateGraph reviewedGraph = .ok () ∧
      reviewedGraph.Covered (·.fromID) (·.toID) ["a"] ∧
      reviewedGraph.Covered (·.toID) (·.fromID) ["b"] ∧
      Lib.Acyclic fun a b => ∃ e ∈ reviewedGraph.edges, e.maxTraversals < 1 ∧ e.fromID = a ∧
        e.toID = b := by
  have hvalid : validateGraph reviewedGraph = .ok () := by decide +kernel
  exact ⟨hvalid, (graph_paths reviewedGraph).2.2 hvalid⟩

end Adro.Orchestration
