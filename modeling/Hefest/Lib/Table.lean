import Mathlib.Data.List.Nodup
import Mathlib.Data.List.Count
import Mathlib.Data.List.Sort
import Mathlib.Algebra.BigOperators.Group.List.Basic
import Mathlib.Algebra.Ring.Nat

set_option autoImplicit false

namespace Table
variable {Row Key : Type*} (key : Row → Key)

def KeyUnique (t : List Row) : Prop := (t.map key).Nodup

section Keys
variable {key}

theorem KeyUnique.eq_of_key {t : List Row} (h : KeyUnique key t) {r s : Row} (hr : r ∈ t)
    (hs : s ∈ t) (hk : key r = key s) : r = s :=
  List.inj_on_of_nodup_map h hr hs hk

theorem KeyUnique.filter {t : List Row} (h : KeyUnique key t) (p : Row → Bool) :
    KeyUnique key (t.filter p) :=
  h.sublist (List.filter_sublist.map key)

theorem keyUnique_append {t u : List Row} (h : KeyUnique key t) (hu : KeyUnique key u)
    (hd : ∀ s ∈ t, ∀ r ∈ u, key s ≠ key r) : KeyUnique key (t ++ u) := by
  unfold KeyUnique at h hu ⊢
  rw [List.map_append, List.nodup_append]
  refine ⟨h, hu, ?_⟩
  intro a ha b hb
  obtain ⟨s, hs, rfl⟩ := List.mem_map.mp ha
  obtain ⟨r, hr, rfl⟩ := List.mem_map.mp hb
  exact hd s hs r hr

theorem keyUnique_insert {t : List Row} (h : KeyUnique key t) {r : Row}
    (hr : ∀ s ∈ t, key s ≠ key r) : KeyUnique key (t ++ [r]) := by
  refine keyUnique_append h (by simp [KeyUnique]) ?_
  intro s hs u hu
  rw [List.mem_singleton.mp hu]
  exact hr s hs

/-- Under a unique key, a filter that fixes the key counts to at most one. -/
theorem KeyUnique.countP_le_one {t : List Row} (h : KeyUnique key t) {k : Key} (p : Row → Bool)
    (hp : ∀ r ∈ t, p r = true → key r = k) : t.countP p ≤ 1 := by
  induction t with
  | nil => simp
  | cons s t ih =>
    have hnd : (∀ x ∈ t, key x ≠ key s) ∧ KeyUnique key t := by
      simpa [KeyUnique, eq_comm] using h
    obtain ⟨hs, ht⟩ := hnd
    rw [List.countP_cons]
    by_cases hps : p s = true
    · have hzero : t.countP p = 0 := by
        rw [List.countP_eq_zero]
        intro r hr hpr
        exact hs r hr ((hp r (by simp [hr]) hpr).trans (hp s (by simp) hps).symm)
      simp [hps, hzero]
    · have := ih ht (fun r hr => hp r (by simp [hr]))
      simpa [hps] using this

end Keys

variable [DecidableEq Key]

def lookup (k : Key) (t : List Row) : Option Row := t.find? (fun r => key r = k)

def update (k : Key) (f : Row → Row) (t : List Row) : List Row :=
  t.map (fun r => if key r = k then f r else r)

def delete (k : Key) (t : List Row) : List Row := t.filter (fun r => key r ≠ k)

def updateWhere (p : Row → Bool) (f : Row → Row) (t : List Row) : List Row :=
  t.map (fun r => if p r then f r else r)

variable {key}

theorem lookup_mem {k : Key} {t : List Row} {r : Row} (h : lookup key k t = some r) : r ∈ t :=
  List.mem_of_find?_eq_some h

theorem lookup_key {k : Key} {t : List Row} {r : Row} (h : lookup key k t = some r) :
    key r = k := by
  simpa using List.find?_some h

theorem lookup_isSome {k : Key} {t : List Row} :
    (lookup key k t).isSome ↔ ∃ r ∈ t, key r = k := by
  simp [lookup, List.find?_isSome]

theorem lookup_eq_none {k : Key} {t : List Row} : lookup key k t = none ↔ ∀ r ∈ t, key r ≠ k := by
  simp [lookup, List.find?_eq_none]

theorem KeyUnique.lookup_iff {t : List Row} (h : KeyUnique key t) {k : Key} {r : Row} :
    lookup key k t = some r ↔ r ∈ t ∧ key r = k := by
  constructor
  · intro hl
    exact ⟨lookup_mem hl, lookup_key hl⟩
  · rintro ⟨hr, hk⟩
    obtain ⟨s, hs⟩ := Option.isSome_iff_exists.mp (lookup_isSome.mpr ⟨r, hr, hk⟩)
    rw [hs, h.eq_of_key (lookup_mem hs) hr ((lookup_key hs).trans hk.symm)]

theorem KeyUnique.lookup_self {t : List Row} (h : KeyUnique key t) {r : Row} (hr : r ∈ t) :
    lookup key (key r) t = some r := h.lookup_iff.mpr ⟨hr, rfl⟩

theorem KeyUnique.lookup_filter {t : List Row} (h : KeyUnique key t) (p : Row → Bool) (k : Key) :
    lookup key k (t.filter p) = (lookup key k t).filter p := by
  apply Option.ext
  intro r
  rw [(h.filter p).lookup_iff, List.mem_filter, Option.filter_eq_some_iff, h.lookup_iff]
  tauto

theorem lookup_append_of_some {k : Key} {t u : List Row} {r : Row} (h : lookup key k t = some r) :
    lookup key k (t ++ u) = some r := by
  unfold lookup at h ⊢
  rw [List.find?_append, h]
  rfl

theorem lookup_append_of_none {k : Key} {t u : List Row} (h : lookup key k t = none) :
    lookup key k (t ++ u) = lookup key k u := by
  unfold lookup at h ⊢
  rw [List.find?_append, h]
  rfl

section UpdateWhere
variable {p : Row → Bool} {f : Row → Row} {t : List Row}

omit [DecidableEq Key] in
theorem mem_updateWhere {r : Row} :
    r ∈ updateWhere p f t ↔ (r ∈ t ∧ p r = false) ∨ ∃ s ∈ t, p s = true ∧ f s = r := by
  simp only [updateWhere, List.mem_map]
  constructor
  · rintro ⟨s, hs, rfl⟩
    cases hp : p s with
    | true => exact Or.inr ⟨s, hs, hp, by simp⟩
    | false => exact Or.inl ⟨by simpa using hs, by simpa using hp⟩
  · rintro (⟨hr, hp⟩ | ⟨s, hs, hp, rfl⟩)
    · exact ⟨r, hr, by simp [hp]⟩
    · exact ⟨s, hs, by simp [hp]⟩

omit [DecidableEq Key] in
theorem map_updateWhere {α : Type*} (g : Row → α) (hg : ∀ r, g (f r) = g r) :
    (updateWhere p f t).map g = t.map g := by
  unfold updateWhere
  rw [List.map_map]
  apply List.map_congr_left
  intro r _
  by_cases hp : p r <;> simp [hp, hg]

omit [DecidableEq Key] in
theorem exists_updateWhere {α : Type*} (g : Row → α) (hg : ∀ r, g (f r) = g r) {a : α} :
    (∃ r ∈ updateWhere p f t, g r = a) ↔ ∃ r ∈ t, g r = a := by
  rw [← List.mem_map, map_updateWhere g hg, List.mem_map]

omit [DecidableEq Key] in
theorem keyUnique_updateWhere (h : KeyUnique key t) (hf : ∀ r, key (f r) = key r) :
    KeyUnique key (updateWhere p f t) := by
  unfold KeyUnique
  rw [map_updateWhere key hf]
  exact h

omit [DecidableEq Key] in
theorem sum_updateWhere_le {c : Row → ℕ} {d : ℕ} (h : ∀ r ∈ t, p r = true → c (f r) + d ≤ c r) :
    ((updateWhere p f t).map c).sum + d * t.countP p ≤ (t.map c).sum := by
  induction t with
  | nil => simp [updateWhere]
  | cons r t ih =>
    have htail := ih fun s hs => h s (by simp [hs])
    have hhead := h r (by simp)
    simp only [updateWhere, List.map_cons, List.sum_cons, List.countP_cons] at htail ⊢
    cases hp : p r with
    | true =>
      have hr := hhead hp
      simp only [if_true, Nat.mul_add]
      omega
    | false =>
      simp only [Bool.false_eq_true, if_false, Nat.mul_add]
      omega

theorem lookup_updateWhere (hf : ∀ r, key (f r) = key r) (k : Key) :
    lookup key k (updateWhere p f t) = (lookup key k t).map (fun r => if p r then f r else r) := by
  induction t with
  | nil => rfl
  | cons r t ih =>
    have hkey : key (if p r then f r else r) = key r := by split <;> simp [hf]
    simp only [updateWhere, lookup, List.map_cons, List.find?_cons, hkey] at ih ⊢
    by_cases hr : key r = k
    · simp [hr]
    · simpa [hr] using ih

end UpdateWhere

section Update
variable {k : Key} {f : Row → Row} {t : List Row}

theorem update_eq_updateWhere (k : Key) :
    update key k f t = updateWhere (fun r => decide (key r = k)) f t := by
  simp [update, updateWhere]

theorem mem_update {r : Row} :
    r ∈ update key k f t ↔ (r ∈ t ∧ key r ≠ k) ∨ ∃ s ∈ t, key s = k ∧ f s = r := by
  rw [update_eq_updateWhere, mem_updateWhere]
  simp only [decide_eq_false_iff_not, decide_eq_true_eq, ne_eq]

theorem map_update {α : Type*} (g : Row → α) (hg : ∀ r, g (f r) = g r) :
    (update key k f t).map g = t.map g := by
  rw [update_eq_updateWhere, map_updateWhere g hg]

theorem exists_update {α : Type*} (g : Row → α) (hg : ∀ r, g (f r) = g r) {a : α} :
    (∃ r ∈ update key k f t, g r = a) ↔ ∃ r ∈ t, g r = a := by
  rw [update_eq_updateWhere, exists_updateWhere g hg]

theorem keyUnique_update (h : KeyUnique key t) (hf : ∀ r, key (f r) = key r) :
    KeyUnique key (update key k f t) := by
  rw [update_eq_updateWhere]
  exact keyUnique_updateWhere h hf

theorem lookup_update (hf : ∀ r, key (f r) = key r) (k' : Key) :
    lookup key k' (update key k f t) =
      (lookup key k' t).map (fun r => if k' = k then f r else r) := by
  rw [update_eq_updateWhere, lookup_updateWhere hf]
  cases hlookup : lookup key k' t with
  | none => rfl
  | some r => simp [lookup_key hlookup]

theorem update_eq_self (h : ∀ r ∈ t, key r = k → f r = r) : update key k f t = t := by
  unfold update
  conv_rhs => rw [← List.map_id t]
  apply List.map_congr_left
  intro r hr
  by_cases hk : key r = k
  · simp [hk, h r hr hk]
  · simp [hk]

theorem KeyUnique.perm_delete (h : KeyUnique key t) {r : Row} (hr : r ∈ t) :
    t.Perm (r :: delete key (key r) t) := by
  induction t with
  | nil => cases hr
  | cons s t ih =>
    have hnd : (∀ x ∈ t, key x ≠ key s) ∧ KeyUnique key t := by
      simpa [KeyUnique, eq_comm] using h
    obtain ⟨hs, ht⟩ := hnd
    rcases List.mem_cons.mp hr with rfl | hmem
    · have hrest : delete key (key r) (r :: t) = t := by
        simpa [delete] using hs
      rw [hrest]
    · have hne : key s ≠ key r := fun he => hs r hmem he.symm
      have hrest : delete key (key r) (s :: t) = s :: delete key (key r) t := by
        simp [delete, hne]
      rw [hrest]
      exact ((ih ht hmem).cons s).trans (List.Perm.swap r s _)

theorem KeyUnique.perm_update (h : KeyUnique key t) {r : Row} (hr : r ∈ t) :
    (update key (key r) f t).Perm (f r :: delete key (key r) t) := by
  have hrest : (delete key (key r) t).map (fun s => if key s = key r then f s else s) =
      delete key (key r) t := by
    conv_rhs => rw [← List.map_id (delete key (key r) t)]
    apply List.map_congr_left
    intro s hs
    have hne : key s ≠ key r := by
      simpa using (List.mem_filter.mp hs).2
    rw [if_neg hne]
    rfl
  have hrows := (h.perm_delete hr).map fun s => if key s = key r then f s else s
  rw [List.map_cons, if_pos rfl, hrest] at hrows
  exact hrows

/-- A one-row update moves a filtered count by what it does to that row. -/
theorem KeyUnique.countP_update (h : KeyUnique key t) {r : Row} (hr : r ∈ t) (hk : key r = k)
    (p : Row → Bool) :
    (update key k f t).countP p + (if p r then 1 else 0) =
      t.countP p + (if p (f r) then 1 else 0) := by
  subst hk
  rw [(h.perm_update hr).countP_eq, (h.perm_delete hr).countP_eq, List.countP_cons, List.countP_cons]
  omega

theorem KeyUnique.sum_update (h : KeyUnique key t) {r : Row} (hr : r ∈ t) (c : Row → ℕ) :
    ((update key (key r) f t).map c).sum + c r = (t.map c).sum + c (f r) := by
  rw [((h.perm_update hr).map c).sum_eq, ((h.perm_delete hr).map c).sum_eq, List.map_cons,
    List.sum_cons, List.map_cons, List.sum_cons]
  omega

theorem KeyUnique.sum_delete (h : KeyUnique key t) {r : Row} (hr : r ∈ t) (c : Row → ℕ) :
    ((delete key (key r) t).map c).sum + c r = (t.map c).sum := by
  rw [((h.perm_delete hr).map c).sum_eq, List.map_cons, List.sum_cons]
  omega

end Update

section Picked
variable {t rows : List Row}

omit [DecidableEq Key] in
theorem KeyUnique.mem_picked (h : KeyUnique key t) (hrows : ∀ r ∈ rows, r ∈ t) {r : Row}
    (hr : r ∈ t) (hkey : key r ∈ rows.map key) : r ∈ rows := by
  obtain ⟨s, hs, hsr⟩ := List.mem_map.mp hkey
  have hsame : s = r := h.eq_of_key (hrows s hs) hr hsr
  exact hsame ▸ hs

theorem KeyUnique.length_picked_le (hpicked : KeyUnique key rows) (hrows : ∀ r ∈ rows, r ∈ t) :
    rows.length ≤ t.countP fun r => key r ∈ rows.map key := by
  have hnodup : rows.Nodup := List.Nodup.of_map key hpicked
  have hsub : rows ⊆ t.filter fun r => key r ∈ rows.map key := by
    intro r hr
    exact List.mem_filter.mpr ⟨hrows r hr, decide_eq_true (List.mem_map_of_mem hr)⟩
  rw [List.countP_eq_length_filter]
  exact (List.subperm_of_subset hnodup hsub).length_le

theorem KeyUnique.sum_updatePicked_le (h : KeyUnique key t) (hpicked : KeyUnique key rows)
    (hrows : ∀ r ∈ rows, r ∈ t) {f : Row → Row} {c : Row → ℕ} {d : ℕ}
    (hcost : ∀ r ∈ rows, c (f r) + d ≤ c r) :
    ((updateWhere (fun r => key r ∈ rows.map key) f t).map c).sum + d * rows.length ≤
      (t.map c).sum := by
  have hsum := sum_updateWhere_le (p := fun r => key r ∈ rows.map key) (f := f) (t := t) (c := c)
    (d := d) fun r hr hp => hcost r (h.mem_picked hrows hr (of_decide_eq_true hp))
  have hmany := Nat.mul_le_mul_left d (hpicked.length_picked_le hrows)
  omega

end Picked

theorem lookup_map {Row' : Type*} {key' : Row' → Key} (g : Row → Row')
    (hg : ∀ r, key' (g r) = key r) (k : Key) (t : List Row) :
    lookup key' k (t.map g) = (lookup key k t).map g := by
  simp only [lookup, List.find?_map, Function.comp_def, hg]

theorem lookup_delete (k k' : Key) (t : List Row) :
    lookup key k (delete key k' t) = if k = k' then none else lookup key k t := by
  unfold lookup delete
  rw [List.find?_filter]
  split_ifs with hk
  · subst hk
    simp
  · congr 1
    funext r
    by_cases hr : key r = k
    · simp [hr, hk]
    · simp [hr]

section Join
variable {Row' : Type*}

theorem KeyUnique.sum_key_eq {t : List Row} (h : KeyUnique key t) (k : Key) :
    (t.map fun s => if k = key s then 1 else 0).sum = if (lookup key k t).isSome then 1 else 0 := by
  induction t with
  | nil => rfl
  | cons s t ih =>
    have hnd : key s ∉ t.map key ∧ KeyUnique key t := List.nodup_cons.mp h
    rw [List.map_cons, List.sum_cons, ih hnd.2]
    by_cases hs : k = key s
    · have habsent : lookup key k t = none := by
        rw [lookup_eq_none]
        intro r hr hk
        exact hnd.1 (List.mem_map.mpr ⟨r, hr, hk.trans hs⟩)
      have hfound : lookup key k (s :: t) = some s := by
        simp [lookup, hs]
      rw [habsent, hfound, if_pos hs]
      rfl
    · have hskip : lookup key k (s :: t) = lookup key k t := by
        simp [lookup, Ne.symm hs]
      rw [hskip, if_neg hs, Nat.zero_add]

/-- Counting the referencing rows of each selected row, or those whose row is selected. -/
theorem KeyUnique.sum_countP_join {t : List Row} (h : KeyUnique key t) (q : Row → Bool)
    (fk : Row' → Key) (p : Row' → Bool) (rows : List Row') :
    ((t.filter q).map fun s => rows.countP fun r => decide (fk r = key s) && p r).sum =
      rows.countP fun r => (lookup key (fk r) t).any q && p r := by
  induction rows with
  | nil => simp
  | cons r rows ih =>
    have hone : ((t.filter q).map fun s => if (decide (fk r = key s) && p r) = true then 1 else 0).sum =
        if ((lookup key (fk r) t).any q && p r) = true then 1 else 0 := by
      cases hp : p r with
      | false => simp
      | true =>
        have hsum := (h.filter q).sum_key_eq (fk r)
        rw [h.lookup_filter q] at hsum
        simpa [Option.isSome_filter] using hsum
    simp only [List.countP_cons, List.sum_map_add, ih, hone]

end Join

/-- A condition that implies another counts as many rows only when the two agree. -/
theorem countP_eq_iff_of_imp {p q : Row → Bool} {t : List Row} (h : ∀ r ∈ t, q r = true → p r = true) :
    t.countP p = t.countP q ↔ ∀ r ∈ t, p r = true → q r = true := by
  induction t with
  | nil => simp
  | cons r t ih =>
    have htail := ih fun s hs => h s (by simp [hs])
    have hle : t.countP q ≤ t.countP p := List.countP_mono_left fun s hs => h s (by simp [hs])
    have hr := h r (by simp)
    simp only [List.countP_cons, List.forall_mem_cons, ← htail]
    cases hp : p r <;> cases hq : q r <;> simp_all
    omega

section Events
variable {Event : Type*} (k : Key)

/-- What a log of keyed events says about one key. -/
def eventsOf (os : List (Key × Event)) : List Event :=
  os.filterMap fun o => if o.1 = k then some o.2 else none

@[simp] theorem eventsOf_nil : eventsOf k ([] : List (Key × Event)) = [] := rfl

@[simp] theorem eventsOf_append (os os' : List (Key × Event)) :
    eventsOf k (os ++ os') = eventsOf k os ++ eventsOf k os' := List.filterMap_append ..

theorem eventsOf_singleton (k' : Key) (e : Event) :
    eventsOf k [(k', e)] = if k' = k then [e] else [] := by
  by_cases h : k' = k <;> simp [eventsOf, h]

theorem mem_eventsOf {os : List (Key × Event)} {e : Event} : e ∈ eventsOf k os ↔ (k, e) ∈ os := by
  simp only [eventsOf, List.mem_filterMap]
  constructor
  · rintro ⟨⟨k', e'⟩, hmem, h⟩
    split_ifs at h with hk
    cases h
    exact hk ▸ hmem
  · intro hmem
    exact ⟨_, hmem, if_pos rfl⟩

theorem eventsOf_rows {rows : List Row} (h : KeyUnique key rows) (g : Row → Event) :
    eventsOf k (rows.map fun r => (key r, g r)) = ((lookup key k rows).map g).toList := by
  induction rows with
  | nil => rfl
  | cons r rows ih =>
    have hnd : key r ∉ rows.map key ∧ KeyUnique key rows := List.nodup_cons.mp h
    have hcons : eventsOf k ((r :: rows).map fun r => (key r, g r)) =
        eventsOf k [(key r, g r)] ++ eventsOf k (rows.map fun r => (key r, g r)) :=
      eventsOf_append k [(key r, g r)] _
    rw [hcons, ih hnd.2, eventsOf_singleton]
    by_cases hr : key r = k
    · have habsent : lookup key k rows = none := by
        rw [lookup_eq_none]
        intro s hs hsk
        exact hnd.1 (List.mem_map.mpr ⟨s, hs, hsk.trans hr.symm⟩)
      have hfound : lookup key k (r :: rows) = some r := by
        simp [lookup, hr]
      rw [habsent, hfound, if_pos hr]
      rfl
    · have hskip : lookup key k (r :: rows) = lookup key k rows := by
        simp [lookup, hr]
      rw [hskip, if_neg hr, List.nil_append]

end Events

section Order
variable (le : Row → Row → Prop) [DecidableRel le]

/-- `ORDER BY` as a stable sort. -/
def orderBy (t : List Row) : List Row := t.insertionSort le

theorem orderBy_perm (t : List Row) : (orderBy le t).Perm t := List.perm_insertionSort le t

theorem mem_orderBy {t : List Row} {r : Row} : r ∈ orderBy le t ↔ r ∈ t :=
  (orderBy_perm le t).mem_iff

/-- `ORDER BY ... LIMIT 1`. -/
def first (t : List Row) : Option Row := (orderBy le t).head?

theorem first_eq_none {t : List Row} : first le t = none ↔ t = [] := by
  unfold first
  rw [List.head?_eq_none_iff]
  constructor
  · intro h
    have hp := orderBy_perm le t
    rw [h] at hp
    exact hp.symm.eq_nil
  · rintro rfl
    rfl

theorem first_mem {t : List Row} {r : Row} (h : first le t = some r) : r ∈ t :=
  (mem_orderBy le).mp (List.mem_of_mem_head? h)

theorem first_least [Std.Total le] [IsTrans Row le] {t : List Row} {r : Row}
    (h : first le t = some r) : ∀ s ∈ t, r = s ∨ le r s := by
  have hsorted : (orderBy le t).Pairwise le := List.pairwise_insertionSort le t
  intro s hs
  have hmem := (mem_orderBy le).mpr hs
  unfold first at h
  cases hrows : orderBy le t with
  | nil =>
    rw [hrows] at h
    cases h
  | cons u rows =>
    rw [hrows] at h hsorted hmem
    cases h
    rcases List.mem_cons.mp hmem with rfl | htail
    · exact Or.inl rfl
    · exact Or.inr (List.rel_of_pairwise_cons hsorted htail)

end Order
end Table
