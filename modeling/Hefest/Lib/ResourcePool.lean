import Mathlib.Data.List.Nodup
import Mathlib.Data.List.ReduceOption
import Mathlib.Data.List.Perm.Basic

set_option autoImplicit false

namespace ResourcePool
variable {R : Type*}

structure Pool (R : Type*) where
  idle : List R
  /-- What each holder holds. -/
  holders : List (Option R)

def Pool.held (p : Pool R) : List R := p.holders.reduceOption

def Pool.all (p : Pool R) : List R := p.idle ++ p.held

inductive Step : Pool R → Pool R → Prop
  | stay (p : Pool R) : Step p p
  | join (idle : List R) (holders : List (Option R)) :
      Step ⟨idle, holders⟩ ⟨idle, holders ++ [none]⟩
  | take (r : R) (idle : List R) (holders : List (Option R)) (i : ℕ) (h : holders[i]? = some none) :
      Step ⟨r :: idle, holders⟩ ⟨idle, holders.set i (some r)⟩
  | give (r : R) (idle : List R) (holders : List (Option R)) (i : ℕ)
      (h : holders[i]? = some (some r)) :
      Step ⟨idle, holders⟩ ⟨idle ++ [r], holders.set i none⟩

def Pool.Circulates (p : Pool R) (resources : List R) : Prop := p.all.Perm resources

section Holders
variable {holders : List (Option R)} {i : ℕ} {r : R}

theorem set_same_holder {held : Option R} (h : holders[i]? = some held) :
    holders.set i held = holders := by
  obtain ⟨hlt, heq⟩ := List.getElem?_eq_some_iff.mp h
  rw [← heq, List.set_getElem_self]

theorem reduceOption_set_some (h : holders[i]? = some none) :
    (holders.set i (some r)).reduceOption.Perm (r :: holders.reduceOption) := by
  induction holders generalizing i with
  | nil => simp at h
  | cons held rest ih =>
    cases i with
    | zero =>
      have hheld : held = none := Option.some.inj h
      subst hheld
      exact List.Perm.refl _
    | succ i =>
      have hrest := ih h
      cases held with
      | none => exact hrest
      | some s =>
        have hcons : (s :: (rest.set i (some r)).reduceOption).Perm
            (s :: r :: rest.reduceOption) := hrest.cons s
        exact hcons.trans (List.Perm.swap r s _)

theorem reduceOption_set_none (h : holders[i]? = some (some r)) :
    holders.reduceOption.Perm (r :: (holders.set i none).reduceOption) := by
  have hset : (holders.set i none)[i]? = some none := by
    obtain ⟨hlt, -⟩ := List.getElem?_eq_some_iff.mp h
    rw [List.getElem?_set_self hlt]
  have hback : (holders.set i none).set i (some r) = holders := by
    rw [List.set_set, set_same_holder h]
  have hperm : ((holders.set i none).set i (some r)).reduceOption.Perm
      (r :: (holders.set i none).reduceOption) := reduceOption_set_some hset
  rwa [hback] at hperm

theorem mem_held {p : Pool R} (h : p.holders[i]? = some (some r)) : r ∈ p.held :=
  List.reduceOption_mem_iff.mpr (List.mem_of_getElem? h)

end Holders

section Circulation
variable {p q : Pool R} {resources : List R} {r : R} {i j : ℕ}

theorem Step.all_perm (h : Step p q) : q.all.Perm p.all := by
  cases h with
  | stay _ => exact List.Perm.refl _
  | join idle holders =>
    change (idle ++ (holders ++ [none]).reduceOption).Perm (idle ++ holders.reduceOption)
    rw [List.reduceOption_append, List.reduceOption_cons_of_none, List.reduceOption_nil,
      List.append_nil]
  | take r idle holders i h =>
    change (idle ++ (holders.set i (some r)).reduceOption).Perm
      (r :: (idle ++ holders.reduceOption))
    exact ((reduceOption_set_some h).append_left idle).trans List.perm_middle
  | give r idle holders i h =>
    change (idle ++ [r] ++ (holders.set i none).reduceOption).Perm (idle ++ holders.reduceOption)
    rw [List.append_assoc, List.singleton_append]
    exact ((reduceOption_set_none h).symm).append_left idle

theorem Pool.Circulates.step (h : p.Circulates resources) (hstep : Step p q) :
    q.Circulates resources := hstep.all_perm.trans h

theorem Pool.Circulates.not_idle (h : p.Circulates resources) (hnodup : resources.Nodup)
    (hheld : p.holders[i]? = some (some r)) : r ∉ p.idle := by
  have hall : p.all.Nodup := h.nodup_iff.mpr hnodup
  intro hidle
  exact List.disjoint_of_nodup_append hall hidle (mem_held hheld)

theorem Pool.Circulates.room (h : p.Circulates resources)
    (hheld : p.holders[i]? = some (some r)) : p.idle.length < resources.length := by
  have hlength : p.idle.length + p.held.length = resources.length := by
    rw [← List.length_append]
    exact h.length_eq
  have hpos : 0 < p.held.length := List.length_pos_of_mem (mem_held hheld)
  omega

theorem Pool.Circulates.exclusive (h : p.Circulates resources) (hnodup : resources.Nodup)
    (hi : p.holders[i]? = some (some r)) (hj : p.holders[j]? = some (some r)) : i = j := by
  by_contra hne
  have hgive : Step p ⟨p.idle ++ [r], p.holders.set i none⟩ := .give r p.idle p.holders i hi
  have hafter : Pool.Circulates ⟨p.idle ++ [r], p.holders.set i none⟩ resources := h.step hgive
  have hstill : (p.holders.set i none)[j]? = some (some r) := by
    rw [List.getElem?_set_ne hne]
    exact hj
  refine hafter.not_idle hnodup hstill ?_
  exact List.mem_append_right _ (List.mem_singleton_self r)

end Circulation
end ResourcePool
