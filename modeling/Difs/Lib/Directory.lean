import Mathlib

/-!
# Maps that are spread over nodes

Every node keeps a map of its own, and a route says for each key which node it belongs to. Where
every node keeps only keys that are routed to it, the maps together are one map, the directory.
-/

namespace Directory

variable {ι κ ν : Type*} [DecidableEq ι] [DecidableEq κ]

/-- What the node of a key has for it. -/
def merged (route : κ → Option ι) (kept : ι → κ → Option ν) (key : κ) : Option ν :=
  (route key).bind (fun node => kept node key)

/-- Every node keeps only keys that are routed to it. -/
def Placed (route : κ → Option ι) (kept : ι → κ → Option ν) : Prop :=
  ∀ node key value, kept node key = some value → route key = some node

variable {route : κ → Option ι} {kept : ι → κ → Option ν} {node : ι} {key : κ} {value : ν}

omit [DecidableEq ι] [DecidableEq κ] in
lemma merged_of_route (h : route key = some node) : merged route kept key = kept node key := by
  rw [merged, h, Option.bind_some]

omit [DecidableEq ι] [DecidableEq κ] in
/-- A key is found exactly if some node has it. -/
theorem merged_eq_some_iff (h : Placed route kept) :
    merged route kept key = some value ↔ ∃ node, kept node key = some value := by
  constructor
  · intro hm
    obtain ⟨node, hroute, hkept⟩ := Option.bind_eq_some_iff.mp hm
    exact ⟨node, hkept⟩
  · rintro ⟨node, hkept⟩
    rw [merged_of_route (h node key value hkept), hkept]

/-- A node that writes a key of its own writes it to the directory. -/
theorem merged_update (hroute : route key = some node) (o : Option ν) :
    merged route (Function.update kept node (Function.update (kept node) key o)) =
      Function.update (merged route kept) key o := by
  funext k
  by_cases hk : k = key
  · subst hk
    rw [merged_of_route hroute, Function.update_self, Function.update_self, Function.update_self]
  · rw [Function.update_of_ne hk, merged, merged]
    congr 1
    funext y
    by_cases hy : y = node
    · subst hy
      rw [Function.update_self, Function.update_of_ne hk]
    · rw [Function.update_of_ne hy]

/-! ### Directories that are written to -/

/-- A value that `P` allows for a key is written. -/
def Publishes (P : κ → ν → Prop) (d d' : κ → Option ν) : Prop :=
  ∃ key value, P key value ∧ d' = Function.update d key (some value)

abbrev Published (P : κ → ν → Prop) : (κ → Option ν) → (κ → Option ν) → Prop := Relation.ReflTransGen (Publishes P)

variable {P Q : κ → ν → Prop} {d d' : κ → Option ν}

lemma Published.mono (h : Published P d d') (hPQ : ∀ key value, P key value → Q key value) : Published Q d d' := by
  refine Relation.ReflTransGen.mono ?_ _ _ h
  rintro _ _ ⟨key, value, hp, rfl⟩
  exact ⟨key, value, hPQ key value hp, rfl⟩

/-- A key that is found is found from then on. -/
theorem Published.isSome (h : Published P d d') (hkey : (d key).isSome) : (d' key).isSome := by
  induction h with
  | refl => exact hkey
  | @tail b c _ hstep ih =>
    obtain ⟨k, value, -, rfl⟩ := hstep
    by_cases hk : key = k
    · rw [hk, Function.update_self]
      rfl
    · rw [Function.update_of_ne hk]
      exact ih

end Directory
