import Hefest.AuthRouters
import Mathlib.Data.List.TakeWhile

set_option autoImplicit false

namespace Hefest

def RefreshClient.value : RefreshClient → String
  | .web => "web"
  | .mobile => "mobile"

def stateSeparator : String := ":"

/-- `_build_state` with the nonce that `token_urlsafe(16)` has drawn. -/
def buildState (nonce : String) (client : RefreshClient) : String :=
  nonce ++ stateSeparator ++ client.value

section LastPart
variable {text part : String}

theorem allBefore_of_noSeparator (h : ':' ∉ part.toList) :
    ∀ c ∈ part.toList.reverse, decide (c ≠ ':') = true := by
  intro c hc
  refine decide_eq_true (fun hsep => h ?_)
  rw [← hsep]
  exact List.mem_reverse.mp hc

theorem lastPart_of_noSeparator (h : ':' ∉ part.toList) (heq : text.toList = part.toList) :
    lastPart text = part.toList := by
  have hall := allBefore_of_noSeparator h
  unfold lastPart
  rw [heq, List.takeWhile_eq_self_iff.mpr hall, List.reverse_reverse]

theorem lastPart_of_separator {before : List Char} (h : ':' ∉ part.toList)
    (heq : text.toList = before ++ ':' :: part.toList) : lastPart text = part.toList := by
  have hall := allBefore_of_noSeparator h
  have hrev : text.toList.reverse = part.toList.reverse ++ (':' :: before.reverse) := by
    rw [heq, List.reverse_append, List.reverse_cons, List.append_assoc, List.singleton_append]
  have hstop : List.takeWhile (fun c => decide (c ≠ ':')) (':' :: before.reverse) = [] := rfl
  unfold lastPart
  rw [hrev, List.takeWhile_append_of_pos hall, hstop, List.append_nil, List.reverse_reverse]

theorem text_of_lastPart (heq : lastPart text = part.toList) :
    text.toList = part.toList ∨ ∃ before, text.toList = before ++ ':' :: part.toList := by
  have htake : text.toList.reverse.takeWhile (fun c => c ≠ ':') = part.toList.reverse := by
    unfold lastPart at heq
    rw [← heq, List.reverse_reverse]
  have hsplit := List.takeWhile_append_dropWhile (p := fun c => decide (c ≠ ':'))
    (l := text.toList.reverse)
  rw [htake] at hsplit
  cases hrest : text.toList.reverse.dropWhile (fun c => c ≠ ':') with
  | nil =>
    left
    rw [hrest, List.append_nil] at hsplit
    exact (List.reverse_injective hsplit).symm
  | cons c before =>
    right
    have hc : c = ':' := by
      have hnot := List.head?_dropWhile_not (fun c => decide (c ≠ ':')) text.toList.reverse
      rw [hrest, List.head?_cons] at hnot
      exact of_not_not (of_decide_eq_false hnot)
    refine ⟨before.reverse, ?_⟩
    rw [hrest, hc] at hsplit
    rw [← List.reverse_reverse text.toList, ← hsplit, List.reverse_append, List.reverse_cons,
      List.reverse_reverse, List.append_assoc, List.singleton_append]

theorem nonce_toList (nonce part : String) :
    (nonce ++ ":" ++ part).toList = nonce.toList ++ ':' :: part.toList := by
  simp [String.toList_append]

/-- The last part of a text is the text itself, or it stands behind a separator. -/
theorem lastPart_iff (h : ':' ∉ part.toList) :
    lastPart text = part.toList ↔ text = part ∨ ∃ nonce, text = nonce ++ ":" ++ part := by
  constructor
  · intro heq
    rcases text_of_lastPart heq with hwhole | ⟨before, hbefore⟩
    · exact Or.inl (String.toList_injective hwhole)
    · refine Or.inr ⟨String.ofList before, String.toList_injective ?_⟩
      rw [hbefore, nonce_toList, String.toList_ofList]
  · rintro (rfl | ⟨nonce, rfl⟩)
    · exact lastPart_of_noSeparator h rfl
    · exact lastPart_of_separator h (nonce_toList nonce part)

end LastPart

theorem RefreshClient.value_noSeparator (client : RefreshClient) : ':' ∉ client.value.toList := by
  cases client <;> decide

theorem value_ne_buildState (nonce : String) (client : RefreshClient) :
    client.value ≠ buildState nonce client := by
  intro htext
  have hlen := congrArg String.length htext
  rw [buildState, String.length_append, String.length_append] at hlen
  have hone : stateSeparator.length = 1 := rfl
  omega

theorem clientFromState_mobile_iff (text : String) :
    clientFromState (some text) = .mobile ↔
      text = "mobile" ∨ ∃ nonce, text = nonce ++ ":" ++ "mobile" := by
  have hpart : lastPart text = "mobile".toList ↔
      text = "mobile" ∨ ∃ nonce, text = nonce ++ ":" ++ "mobile" :=
    lastPart_iff (RefreshClient.value_noSeparator .mobile)
  by_cases hmobile : text ≠ "" ∧ lastPart text = "mobile".toList
  · have hread : clientFromState (some text) = .mobile := if_pos hmobile
    exact iff_of_true hread (hpart.mp hmobile.2)
  · have hread : clientFromState (some text) = .web := if_neg hmobile
    rw [hread]
    refine iff_of_false (by decide) (fun htext => hmobile ⟨?_, hpart.mpr htext⟩)
    rintro rfl
    exact absurd (hpart.mpr htext) (by decide)

theorem clientFromState_buildState (nonce : String) (client : RefreshClient) :
    clientFromState (some (buildState nonce client)) = client := by
  cases client with
  | mobile => exact (clientFromState_mobile_iff _).mpr (Or.inr ⟨nonce, rfl⟩)
  | web =>
    have hlast : lastPart (buildState nonce .web) = "web".toList :=
      (lastPart_iff (RefreshClient.value_noSeparator .web)).mpr (Or.inr ⟨nonce, rfl⟩)
    refine if_neg (fun hmobile => ?_)
    rw [hlast] at hmobile
    exact absurd hmobile.2 (by decide)

theorem RefreshClient.eq_web_of_ne_mobile {client : RefreshClient} (h : client ≠ .mobile) :
    client = .web := by
  cases client with
  | web => rfl
  | mobile => exact absurd rfl h

/-- Decoding reads `mobile` from exactly the states `_build_state` writes for it, undoes every
    encoding, and reads `web` from all other states, unless the state is the bare tag. -/
theorem clientFromState_exact (state : Option String) :
    ((clientFromState state = .mobile ↔ ∃ nonce, state = some (buildState nonce .mobile)) ∧
      (∀ nonce client, state = some (buildState nonce client) → clientFromState state = client) ∧
      ((∀ nonce client, state ≠ some (buildState nonce client)) → clientFromState state = .web)) ↔
      state ≠ some "mobile" := by
  constructor
  · rintro ⟨hmobile, -, -⟩ rfl
    obtain ⟨nonce, htext⟩ := hmobile.mp ((clientFromState_mobile_iff _).mpr (Or.inl rfl))
    exact value_ne_buildState nonce .mobile (Option.some.inj htext)
  · intro hne
    have hmobile : clientFromState state = .mobile ↔
        ∃ nonce, state = some (buildState nonce .mobile) := by
      cases state with
      | none =>
        refine iff_of_false (by decide) ?_
        rintro ⟨nonce, htext⟩
        cases htext
      | some text =>
        have hbare : text ≠ "mobile" := fun heq => hne (congrArg some heq)
        rw [clientFromState_mobile_iff, or_iff_right hbare]
        exact exists_congr fun nonce => Option.some_inj.symm
    refine ⟨hmobile, ?_, fun hother => RefreshClient.eq_web_of_ne_mobile (fun hread => ?_)⟩
    · rintro nonce client rfl
      exact clientFromState_buildState nonce client
    · obtain ⟨nonce, htext⟩ := hmobile.mp hread
      exact hother nonce .mobile htext

/-- A state without any separator opens the deeplink of the mobile application. -/
theorem bareTag_read_as_mobile :
    clientFromState (some "mobile") = .mobile ∧ ¬ ∃ nonce, "mobile" = buildState nonce .mobile := by
  refine ⟨by decide, ?_⟩
  rintro ⟨nonce, htext⟩
  exact value_ne_buildState nonce .mobile htext

end Hefest
