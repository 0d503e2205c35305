import Mathlib.Data.List.Chain
import Mathlib.Data.List.Forall2
import Mathlib.Data.List.Nodup

/-!
# Families of chains that grow at their ends

A family of disjoint chains over any type. Growing it puts one new element behind the
chain that ends in a given one; every other chain stays as it is.
-/
namespace FieldNote.Chains

variable {α : Type*} {R : α → α → Prop} {x y : α} {chain : List α} {chains : List (List α)}

/-- In a chain an element with no successor is the last one. -/
theorem last_of_no_successor (hchain : chain.IsChain R) (hx : x ∈ chain) (hno : ∀ z, ¬ R x z) :
    chain.getLast? = some x := by
  induction chain with
  | nil => cases hx
  | cons a rest ih =>
      cases rest with
      | nil =>
          rw [List.mem_singleton.mp hx]
          rfl
      | cons b rest =>
          obtain ⟨hab, hrest⟩ := List.isChain_cons_cons.mp hchain
          rw [List.getLast?_cons_cons]
          apply ih hrest
          rcases List.mem_cons.mp hx with rfl | hx
          · exact (hno b hab).elim
          · exact hx

/-- A chain may be lengthened by an element that its last one is related to. -/
theorem isChain_concat (hchain : chain.IsChain R) (hlast : ∀ z, chain.getLast? = some z → R z y) :
    (chain ++ [y]).IsChain R := by
  rw [List.isChain_append]
  refine ⟨hchain, List.isChain_singleton y, ?_⟩
  intro z hz y' hy'
  cases Option.mem_some_iff.mp hy'
  exact hlast z hz

variable [DecidableEq α]

/-- Puts `y` behind `x` where a chain ends in `x`. -/
def extend (x y : α) (chain : List α) : List α :=
  if chain.getLast? = some x then chain ++ [y] else chain

def grow (x y : α) (chains : List (List α)) : List (List α) := chains.map (extend x y)

theorem extend_last (h : chain.getLast? = some x) : extend x y chain = chain ++ [y] := if_pos h

theorem extend_other (h : chain.getLast? ≠ some x) : extend x y chain = chain := if_neg h

theorem extend_of_notMem (h : x ∉ chain) : extend x y chain = chain := by
  apply extend_other
  intro hlast
  exact h (List.mem_of_getLast? hlast)

theorem head?_extend {z : α} (h : chain.head? = some z) : (extend x y chain).head? = some z := by
  unfold extend
  split_ifs
  · rw [List.head?_append, h]
    rfl
  · exact h

theorem grow_of_notMem (h : x ∉ chains.flatten) : grow x y chains = chains := by
  have hself : ∀ chain ∈ chains, extend x y chain = chain := by
    intro chain hchain
    apply extend_of_notMem
    intro hx
    exact h (List.mem_flatten_of_mem hchain hx)
  unfold grow
  rw [List.map_congr_left hself, List.map_id']

/-- A family of disjoint chains one of which ends in `x` gains the one element. -/
theorem flatten_grow (hnodup : chains.flatten.Nodup)
    (hx : ∃ chain ∈ chains, chain.getLast? = some x) :
    (grow x y chains).flatten.Perm (chains.flatten ++ [y]) := by
  induction chains with
  | nil =>
      obtain ⟨chain, hchain, -⟩ := hx
      cases hchain
  | cons first rest ih =>
      rw [List.flatten_cons, List.nodup_append] at hnodup
      obtain ⟨-, hrest, hdisjoint⟩ := hnodup
      by_cases hlast : first.getLast? = some x
      · -- no other chain has the element, so the rest of the family stays
        have hnot : x ∉ rest.flatten := by
          intro hmem
          exact hdisjoint x (List.mem_of_getLast? hlast) x hmem rfl
        have hself := grow_of_notMem (y := y) hnot
        unfold grow at hself ⊢
        rw [List.map_cons, hself, extend_last hlast, List.flatten_cons, List.flatten_cons,
          List.append_assoc, List.append_assoc]
        exact List.perm_append_comm.append_left first
      · have hthere : ∃ chain ∈ rest, chain.getLast? = some x := by
          obtain ⟨chain, hchain, hchainlast⟩ := hx
          rcases List.mem_cons.mp hchain with rfl | hchain
          · exact (hlast hchainlast).elim
          · exact ⟨chain, hchain, hchainlast⟩
        have hperm := ih hrest hthere
        unfold grow at hperm ⊢
        rw [List.map_cons, extend_other hlast, List.flatten_cons, List.flatten_cons,
          List.append_assoc]
        exact hperm.append_left first

end FieldNote.Chains
