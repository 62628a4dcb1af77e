import Mathlib.Tactic

/-!
# Chains in a link table

A link table maps each node to its successor.  A chain is a list of nodes in
which every node links to the next one and the last link is a stop value.  The
nodes and the stop values are arbitrary predicates; the results that need them
to be told apart ask for a `Separated` table.

Main results:

- Theorem `LinkChain.unique`: the first node determines the chain.
- Theorem `LinkChain.nodup`: a chain visits no node twice.
- Theorem `LinkChain.congr`: a table change off the chain keeps the chain.
- Theorem `LinkChain.extend`: linking a fresh node behind the last one
  appends it to the chain.
-/

namespace DiegOS.Lib

open Function

variable {α : Type} {next next' : α → α} {node stop : α → Prop}

/-- `LinkChain next node stop c l`: following the links from `c` visits
exactly the nodes `l` and then reaches a stop value. -/
inductive LinkChain (next : α → α) (node stop : α → Prop) : α → List α → Prop
  | last {c : α} (hnode : node c) (hstop : stop (next c)) : LinkChain next node stop c [c]
  | cons {c : α} {l : List α} (hnode : node c)
      (hrest : LinkChain next node stop (next c) l) : LinkChain next node stop c (c :: l)

/-- No node is a stop value. -/
def Separated (node stop : α → Prop) : Prop := ∀ x, node x → ¬stop x

namespace LinkChain

lemma node_of_mem {c : α} {l : List α} (h : LinkChain next node stop c l) :
    ∀ x ∈ l, node x := by
  induction h with
  | last hnode _ => simpa using hnode
  | cons hnode _ ih => simpa using ⟨hnode, ih⟩

lemma node_head {c : α} {l : List α} (h : LinkChain next node stop c l) : node c := by
  cases h <;> assumption

lemma ne_nil {c : α} {l : List α} (h : LinkChain next node stop c l) : l ≠ [] := by
  cases h <;> simp

lemma head_mem {c : α} {l : List α} (h : LinkChain next node stop c l) : c ∈ l := by
  cases h <;> simp

lemma length_pos {c : α} {l : List α} (h : LinkChain next node stop c l) : 0 < l.length :=
  List.length_pos_of_ne_nil h.ne_nil

lemma getElem_zero {c : α} {l : List α} (h : LinkChain next node stop c l) :
    l[0]? = some c := by
  cases h <;> simp

/-- The first node determines the whole chain. -/
theorem unique (hsep : Separated node stop) {c : α} {l l' : List α}
    (h : LinkChain next node stop c l) (h' : LinkChain next node stop c l') : l = l' := by
  induction h generalizing l' with
  | last _ hstop =>
    cases h' with
    | last => rfl
    | cons _ hrest => exact absurd hstop (hsep _ hrest.node_head)
  | cons _ hrest ih =>
    cases h' with
    | last _ hstop => exact absurd hstop (hsep _ hrest.node_head)
    | cons _ hrest' => rw [ih hrest']

/-- Every member of a chain starts the rest of it. -/
lemma split_of_mem {c x : α} {l : List α} (h : LinkChain next node stop c l)
    (hx : x ∈ l) : ∃ pre suf, l = pre ++ x :: suf ∧ LinkChain next node stop x (x :: suf) := by
  induction h with
  | last hnode hstop =>
    rw [List.mem_singleton] at hx
    subst hx
    exact ⟨[], [], rfl, .last hnode hstop⟩
  | cons hnode hrest ih =>
    rcases List.mem_cons.mp hx with rfl | hx
    · exact ⟨[], _, rfl, .cons hnode hrest⟩
    · obtain ⟨pre, suf, rfl, hsuf⟩ := ih hx
      exact ⟨_ :: pre, suf, rfl, hsuf⟩

/-- A chain visits no node twice. -/
theorem nodup (hsep : Separated node stop) {c : α} {l : List α}
    (h : LinkChain next node stop c l) : l.Nodup := by
  induction h with
  | last => simp
  | @cons c l hnode hrest ih =>
    rw [List.nodup_cons]
    refine ⟨fun hmem => ?_, ih⟩
    -- A second visit would make the chain a proper suffix of itself.
    obtain ⟨pre, suf, rfl, hsuf⟩ := hrest.split_of_mem hmem
    have heq := (LinkChain.cons hnode hrest).unique hsep hsuf
    have hlen := congrArg List.length heq
    simp at hlen
    omega

/-- A chain depends only on the links of its own nodes. -/
theorem congr {c : α} {l : List α} (h : LinkChain next node stop c l)
    (hnext : ∀ x ∈ l, next' x = next x) : LinkChain next' node stop c l := by
  induction h with
  | @last c hnode hstop =>
    refine .last hnode ?_
    rwa [hnext c (by simp)]
  | @cons c l hnode _ ih =>
    refine .cons hnode ?_
    rw [hnext c (by simp)]
    exact ih fun x hx => hnext x (by simp [hx])

/-- Each node of a chain links to the following one. -/
lemma next_getElem {c : α} {l : List α} (h : LinkChain next node stop c l) {i : Nat}
    {x y : α} (hx : l[i]? = some x) (hy : l[i + 1]? = some y) : next x = y := by
  induction h generalizing i with
  | last => simp at hy
  | @cons c l _ hrest ih =>
    cases i with
    | zero =>
      have hfirst := hrest.getElem_zero
      simp_all
    | succ i => exact ih (by simpa using hx) (by simpa using hy)

/-- The last node of a chain links to a stop value. -/
lemma stop_getElem {c : α} {l : List α} (h : LinkChain next node stop c l) {i : Nat}
    {x : α} (hx : l[i]? = some x) (hlast : i + 1 = l.length) : stop (next x) := by
  induction h generalizing i with
  | last _ hstop =>
    obtain rfl : i = 0 := by simpa using hlast
    simp at hx
    rwa [← hx]
  | @cons c l _ hrest ih =>
    cases i with
    | zero =>
      have hpos := hrest.length_pos
      rw [List.length_cons] at hlast
      omega
    | succ i => exact ih (by simpa using hx) (by simpa using hlast)

/-- The link of a chain node is a node or a stop value. -/
lemma next_of_mem {c x : α} {l : List α} (h : LinkChain next node stop c l) (hx : x ∈ l) :
    node (next x) ∨ stop (next x) := by
  induction h with
  | last _ hstop =>
    rw [List.mem_singleton] at hx
    exact .inr (hx ▸ hstop)
  | cons _ hrest ih =>
    rcases List.mem_cons.mp hx with rfl | hx
    · exact .inl hrest.node_head
    · exact ih hx

/-- A chain is closed under its links, the last one apart. -/
lemma next_mem_of_mem {c x : α} {l : List α} (h : LinkChain next node stop c l) (hx : x ∈ l) :
    next x ∈ l ∨ stop (next x) := by
  induction h with
  | last _ hstop =>
    rw [List.mem_singleton] at hx
    exact .inr (hx ▸ hstop)
  | cons _ hrest ih =>
    rcases List.mem_cons.mp hx with rfl | hx
    · exact .inl (.tail _ hrest.head_mem)
    · rcases ih hx with hmem | hstop
      · exact .inl (.tail _ hmem)
      · exact .inr hstop

/-- A fresh node whose link is a stop value is a chain of its own. -/
lemma singleton {c : α} (hnode : node c) (hstop : stop (next c)) :
    LinkChain next node stop c [c] :=
  .last hnode hstop

/-- Linking a fresh node behind the last one appends it. -/
theorem extend [DecidableEq α] {c f v : α} {l : List α} (h : LinkChain next node stop c l)
    (hsep : Separated node stop) (hnode : node f) (hfresh : f ∉ l) (hstop : stop v) {x : α}
    (hx : l[l.length - 1]? = some x) :
    LinkChain (update (update next x f) f v) node stop c (l ++ [f]) := by
  have hxl : x ∈ l := List.mem_of_getElem? hx
  have hxf : x ≠ f := fun heq => hfresh (heq ▸ hxl)
  induction h with
  | @last c hc _ =>
    obtain rfl : c = x := by simpa using hx
    have hlink : update (update next c f) f v c = f := by
      rw [update_of_ne hxf, update_self]
    refine .cons hc ?_
    rw [hlink]
    exact .last hnode (by simpa using hstop)
  | @cons c l hc hrest ih =>
    have hpos := hrest.length_pos
    have hx' : l[l.length - 1]? = some x := by
      rw [List.length_cons, Nat.add_sub_cancel] at hx
      obtain ⟨n, hn⟩ : ∃ n, l.length = n + 1 := ⟨l.length - 1, by omega⟩
      rw [hn] at hx ⊢
      simpa using hx
    have hxl' : x ∈ l := List.mem_of_getElem? hx'
    have hnodup := (LinkChain.cons hc hrest).nodup hsep
    have hcx : c ≠ x := fun heq => (List.nodup_cons.mp hnodup).1 (heq ▸ hxl')
    have hcf : c ≠ f := fun heq => hfresh (by simp [heq])
    have hih := ih (fun hf => hfresh (by simp [hf])) hx' hxl'
    refine .cons hc ?_
    rwa [update_of_ne hcf, update_of_ne hcx]

end LinkChain

end DiegOS.Lib
