import Hefest.Pusher

set_option autoImplicit false

namespace Hefest
open Slices PushTemplates

section Batch
variable {replies : ℕ → Option ExpoResponse} {content : PushContent} {data : Json}
variable {run : PushRun} {batch tokens : List String}

@[simp] theorem PushRun.prune_posted (dead : List String) :
    (run.prune dead).posted = run.posted := by
  unfold PushRun.prune
  split <;> rfl

@[simp] theorem PushRun.prune_raised (dead : List String) :
    (run.prune dead).raised = run.raised := by
  unfold PushRun.prune
  split <;> rfl

theorem readTickets_failed {response : ExpoResponse}
    (h : ¬ (200 ≤ response.status ∧ response.status < 300)) :
    readTickets (some response) = .error .httpError := by
  simp only [readTickets, ExpoResponse.raiseForStatus, if_neg h, Except.bind]

theorem readTickets_body {response : ExpoResponse}
    (h : 200 ≤ response.status ∧ response.status < 300) :
    readTickets (some response) =
      response.json.bind fun body => (body.getD "data" (.array [])).mapError .ofRead := by
  simp only [readTickets, ExpoResponse.raiseForStatus, if_pos h, Except.bind]

theorem readTickets_decodeError {response : ExpoResponse}
    (h : 200 ≤ response.status ∧ response.status < 300) {error : DecodeError}
    (hbody : response.body = .error error) :
    readTickets (some response) = .error (.ofDecode error) := by
  rw [readTickets_body h, ExpoResponse.json, hbody]
  rfl

theorem readTickets_object {response : ExpoResponse} {members : List (String × Json)}
    (h : 200 ≤ response.status ∧ response.status < 300)
    (hbody : response.body = .ok (.object members)) :
    readTickets (some response) = .ok ((Json.member members "data").getD (.array [])) := by
  rw [readTickets_body h, ExpoResponse.json, hbody]
  simp only [Except.bind, Json.getD, Json.get_object, Except.map, Except.mapError]

theorem readTickets_notObject {response : ExpoResponse} {body : Json}
    (h : 200 ≤ response.status ∧ response.status < 300) (hbody : response.body = .ok body)
    (hobject : ∀ members, body ≠ .object members) :
    readTickets (some response) = .error .attributeError := by
  rw [readTickets_body h, ExpoResponse.json, hbody]
  cases body with
  | object members => exact absurd rfl (hobject members)
  | _ => rfl

theorem sendBatch_posted :
    (sendBatch replies content data run batch).posted =
      run.posted ++ [pushMessages content data batch] := by
  unfold sendBatch
  split
  · split <;> rfl
  · split
    · rfl
    · rw [PushRun.prune_posted]

theorem sendBatch_posted_length (k : ℕ) :
    (sendBatch replies content data run batch).posted.length + k =
      run.posted.length + (k + 1) := by
  rw [sendBatch_posted, List.length_append, List.length_singleton, Nat.add_assoc, Nat.add_comm 1 k]

theorem sendBatch_swallowed {error : PushError}
    (hread : readTickets (replies run.posted.length) = .error error)
    (hmem : error ∈ swallowedErrors) :
    sendBatch replies content data run batch =
      { run with posted := run.posted ++ [pushMessages content data batch] } := by
  simp only [sendBatch, hread, if_pos hmem]

theorem sendBatch_raises {error : PushError}
    (hread : readTickets (replies run.posted.length) = .error error)
    (hmem : error ∉ swallowedErrors) :
    (sendBatch replies content data run batch).raised = some error := by
  simp only [sendBatch, hread, if_neg hmem]

theorem sendBatch_tickets_raised {tickets : Json} (hrun : run.raised = none) (hne : batch ≠ [])
    (hread : readTickets (replies run.posted.length) = .ok tickets) :
    (sendBatch replies content data run batch).raised = none ↔
      TicketsReadable batch.length tickets := by
  rw [← handleTickets_ok_iff hne]
  cases hhandle : handleTickets batch tickets with
  | error error =>
    simp only [sendBatch, hread, hhandle]
    refine iff_of_false (Option.some_ne_none _) ?_
    rintro ⟨dead, h⟩
    cases h
  | ok dead =>
    simp only [sendBatch, hread, hhandle, PushRun.prune_raised]
    exact iff_of_true hrun ⟨dead, rfl⟩

theorem digestible_body {response : ExpoResponse} {body : Json} {n : ℕ}
    (hstatus : 200 ≤ response.status ∧ response.status < 300) (hbody : response.body = .ok body) :
    Digestible n (some response) ↔ ∃ members, body = .object members ∧
      TicketsReadable n ((Json.member members "data").getD (.array [])) := by
  constructor
  · intro h
    rcases h response rfl hstatus with hfails | ⟨members, hobject, hreadable⟩
    · rw [hbody] at hfails
      cases hfails
    · rw [hbody] at hobject
      exact ⟨members, Except.ok.inj hobject, hreadable⟩
  · rintro ⟨members, rfl, hreadable⟩ response' hresponse _
    cases hresponse
    exact .inr ⟨members, hbody, hreadable⟩

/-- Of the bodies that do not decode only those that are not JSON are swallowed. -/
theorem digestible_decodeError {response : ExpoResponse} {error : DecodeError} {n : ℕ}
    (hstatus : 200 ≤ response.status ∧ response.status < 300)
    (hbody : response.body = .error error) :
    Digestible n (some response) ↔ PushError.ofDecode error ∈ swallowedErrors := by
  cases error with
  | valueError =>
    refine iff_of_true ?_ (by decide)
    intro response' hresponse _
    cases hresponse
    exact .inl hbody
  | recursionError =>
    refine iff_of_false ?_ (by decide)
    intro h
    rcases h response rfl hstatus with hfails | ⟨members, hobject, -⟩
    · cases hbody.symm.trans hfails
    · cases hbody.symm.trans hobject

theorem sendBatch_raised_swallowed {reply : Option ExpoResponse} {error : PushError}
    (hreply : replies run.posted.length = reply) (hread : readTickets reply = .error error)
    (hmem : error ∈ swallowedErrors) (hrun : run.raised = none)
    (hdigest : Digestible batch.length reply) :
    (sendBatch replies content data run batch).raised = none ↔ Digestible batch.length reply := by
  rw [← hreply] at hread
  rw [sendBatch_swallowed hread hmem]
  exact iff_of_true hrun hdigest

theorem sendBatch_raised_iff (hrun : run.raised = none) (hne : batch ≠ []) :
    (sendBatch replies content data run batch).raised = none ↔
      Digestible batch.length (replies run.posted.length) := by
  cases hreply : replies run.posted.length with
  | none =>
    refine sendBatch_raised_swallowed hreply rfl (by decide : .httpError ∈ swallowedErrors) hrun ?_
    intro response h
    cases h
  | some response =>
    by_cases hstatus : 200 ≤ response.status ∧ response.status < 300
    · cases hbody : response.body with
      | error error =>
        have hread := readTickets_decodeError hstatus hbody
        by_cases hmem : PushError.ofDecode error ∈ swallowedErrors
        · exact sendBatch_raised_swallowed hreply hread hmem hrun
            ((digestible_decodeError hstatus hbody).mpr hmem)
        · rw [← hreply] at hread
          rw [sendBatch_raises hread hmem]
          exact iff_of_false (Option.some_ne_none _)
            fun h => hmem ((digestible_decodeError hstatus hbody).mp h)
      | ok body =>
        rw [digestible_body hstatus hbody]
        by_cases hobject : ∃ members, body = .object members
        · obtain ⟨members, rfl⟩ := hobject
          have hread := readTickets_object hstatus hbody
          rw [← hreply] at hread
          rw [sendBatch_tickets_raised hrun hne hread]
          constructor
          · intro h
            exact ⟨members, rfl, h⟩
          · rintro ⟨members', hmembers, h⟩
            cases hmembers
            exact h
        · have hread := readTickets_notObject hstatus hbody (fun members h => hobject ⟨members, h⟩)
          rw [← hreply] at hread
          rw [sendBatch_raises hread (by decide)]
          refine iff_of_false (Option.some_ne_none _) ?_
          rintro ⟨members, h, -⟩
          exact hobject ⟨members, h⟩
    · refine sendBatch_raised_swallowed hreply (readTickets_failed hstatus) (by decide) hrun ?_
      intro response' hresponse hok
      cases hresponse
      exact absurd hok hstatus

end Batch

section Batches
variable {replies : ℕ → Option ExpoResponse} {content : PushContent} {data : Json}
variable {run : PushRun} {tokens : List String} {indices : List ℕ}

theorem sendBatches_cons_ok {start : ℕ} {rest : List ℕ}
    (h : (sendBatch replies content data run
      (slice maxTokensPerRequest tokens start)).raised = none) :
    sendBatches replies content data tokens (start :: rest) run =
      sendBatches replies content data tokens rest
        (sendBatch replies content data run (slice maxTokensPerRequest tokens start)) := by
  simp only [sendBatches, h]

theorem sendBatches_cons_raised {start : ℕ} {rest : List ℕ}
    (h : (sendBatch replies content data run
      (slice maxTokensPerRequest tokens start)).raised ≠ none) :
    sendBatches replies content data tokens (start :: rest) run =
      sendBatch replies content data run (slice maxTokensPerRequest tokens start) := by
  cases hraised :
      (sendBatch replies content data run (slice maxTokensPerRequest tokens start)).raised with
  | none => exact absurd hraised h
  | some error => simp only [sendBatches, hraised]

theorem sendBatches_raised_iff (hrun : run.raised = none)
    (hne : ∀ start ∈ indices, slice maxTokensPerRequest tokens start ≠ []) :
    (sendBatches replies content data tokens indices run).raised = none ↔
      ∀ k start, indices[k]? = some start →
        Digestible (slice maxTokensPerRequest tokens start).length
          (replies (run.posted.length + k)) := by
  induction indices generalizing run with
  | nil => exact iff_of_true hrun (by simp)
  | cons start rest ih =>
    have hfirst :
        (sendBatch replies content data run (slice maxTokensPerRequest tokens start)).raised = none ↔
          Digestible (slice maxTokensPerRequest tokens start).length (replies run.posted.length) :=
      sendBatch_raised_iff hrun (hne start List.mem_cons_self)
    by_cases hraised :
        (sendBatch replies content data run (slice maxTokensPerRequest tokens start)).raised = none
    · have hlater := ih hraised (fun s hs => hne s (List.mem_cons_of_mem _ hs))
      simp only [sendBatch_posted_length] at hlater
      rw [sendBatches_cons_ok hraised, hlater]
      constructor
      · intro h k s hk
        cases k with
        | zero =>
          cases hk
          exact hfirst.mp hraised
        | succ k => exact h k s hk
      · intro h k s hk
        exact h (k + 1) s hk
    · rw [sendBatches_cons_raised hraised]
      exact iff_of_false hraised (fun h => hraised (hfirst.mpr (h 0 start rfl)))

theorem sendBatches_posted
    (h : (sendBatches replies content data tokens indices run).raised = none) :
    (sendBatches replies content data tokens indices run).posted =
      run.posted ++ indices.map fun start =>
        pushMessages content data (slice maxTokensPerRequest tokens start) := by
  induction indices generalizing run with
  | nil => simp [sendBatches]
  | cons start rest ih =>
    by_cases hraised :
        (sendBatch replies content data run (slice maxTokensPerRequest tokens start)).raised = none
    · rw [sendBatches_cons_ok hraised] at h ⊢
      rw [ih h, sendBatch_posted, List.append_assoc, List.map_cons, List.singleton_append]
    · rw [sendBatches_cons_raised hraised] at h
      exact absurd h hraised

end Batches

section Starts
variable {tokens : List String} {k : ℕ}

theorem getElem?_starts {start : ℕ}
    (h : (starts maxTokensPerRequest tokens.length)[k]? = some start) :
    start = maxTokensPerRequest * k ∧ k < count maxTokensPerRequest tokens.length := by
  rw [starts, List.getElem?_map, Option.map_eq_some_iff] at h
  obtain ⟨j, hj, rfl⟩ := h
  obtain ⟨hlt, heq⟩ := List.getElem?_eq_some_iff.mp hj
  rw [List.getElem_range] at heq
  rw [List.length_range] at hlt
  subst heq
  exact ⟨rfl, hlt⟩

theorem starts_slice_ne_nil {start : ℕ}
    (h : start ∈ starts maxTokensPerRequest tokens.length) :
    slice maxTokensPerRequest tokens start ≠ [] := by
  obtain ⟨k, hk⟩ := List.mem_iff_getElem?.mp h
  obtain ⟨rfl, hlt⟩ := getElem?_starts hk
  exact slice_ne_nil hlt

theorem getElem?_pushBatches {batch : List String} :
    (pushBatches tokens)[k]? = some batch ↔
      ∃ start, (starts maxTokensPerRequest tokens.length)[k]? = some start ∧
        slice maxTokensPerRequest tokens start = batch := by
  rw [pushBatches, List.getElem?_map, Option.map_eq_some_iff]

end Starts

section Completes
variable (replies : ℕ → Option ExpoResponse) (content : PushContent) (data : Json)
variable (tokens : List String) (devices : List Device)

theorem sendToTokens_raised_iff :
    (sendToTokens replies content data tokens devices).raised = none ↔
      ∀ k batch, (pushBatches tokens)[k]? = some batch → Digestible batch.length (replies k) := by
  by_cases hnil : tokens = []
  · subst hnil
    exact iff_of_true rfl (fun k batch h => by cases h)
  · rw [sendToTokens, if_neg hnil, sendBatches_raised_iff rfl (fun _ => starts_slice_ne_nil)]
    constructor
    · intro h k batch hbatch
      obtain ⟨start, hstart, rfl⟩ := getElem?_pushBatches.mp hbatch
      have hdigest := h k start hstart
      rwa [List.length_nil, Nat.zero_add] at hdigest
    · intro h k start hstart
      rw [List.length_nil, Nat.zero_add]
      exact h k _ (getElem?_pushBatches.mpr ⟨start, hstart, rfl⟩)

theorem sendToTokens_posted (h : (sendToTokens replies content data tokens devices).raised = none) :
    (sendToTokens replies content data tokens devices).posted =
      (pushBatches tokens).map (pushMessages content data) := by
  by_cases hnil : tokens = []
  · subst hnil
    rfl
  · rw [sendToTokens, if_neg hnil] at h ⊢
    rw [sendBatches_posted h, List.nil_append, pushBatches, List.map_map]
    rfl

/-- A push goes through to its last batch exactly if every answer is digestible. -/
theorem sendToTokens_completes_iff :
    (sendToTokens replies content data tokens devices).raised = none ∧
        (sendToTokens replies content data tokens devices).posted =
          (pushBatches tokens).map (pushMessages content data) ↔
      ∀ k batch, (pushBatches tokens)[k]? = some batch → Digestible batch.length (replies k) := by
  rw [← sendToTokens_raised_iff replies content data tokens devices]
  constructor
  · intro h
    exact h.1
  · intro h
    exact ⟨h, sendToTokens_posted replies content data tokens devices h⟩

end Completes

theorem nullBody_stops_the_push :
    (sendToTokens (fun _ => some ⟨200, .ok .null⟩) ⟨"Event cancelled", "Gala"⟩ .null
        (List.replicate 101 "ExponentPushToken[a]") []).raised = some .attributeError ∧
      (sendToTokens (fun _ => some ⟨200, .ok .null⟩) ⟨"Event cancelled", "Gala"⟩ .null
        (List.replicate 101 "ExponentPushToken[a]") []).posted.length = 1 ∧
      (pushBatches (List.replicate 101 "ExponentPushToken[a]")).length = 2 := by
  refine ⟨rfl, rfl, rfl⟩

/-- What `_send_batch` swallows, or a list of tickets, and the tickets of the answer. -/
inductive WellFormedReply : Option ExpoResponse → List Json → Prop
  | noResponse : WellFormedReply none []
  | errorStatus (response : ExpoResponse)
      (hstatus : ¬ (200 ≤ response.status ∧ response.status < 300)) :
      WellFormedReply (some response) []
  | notJson (response : ExpoResponse) (hbody : response.body = .error .valueError) :
      WellFormedReply (some response) []
  | tickets (response : ExpoResponse) (members : List (String × Json)) (items : List Json)
      (hstatus : 200 ≤ response.status ∧ response.status < 300)
      (hbody : response.body = .ok (.object members))
      (hdata : Json.member members "data" = some (.array items))
      (hitems : ∀ ticket ∈ items, Readable ticket) : WellFormedReply (some response) items

def DeadAt (batch : List String) (items : List Json) (token : String) : Prop :=
  ∃ i : ℕ, batch[i]? = some token ∧ ∃ ticket, items[i]? = some ticket ∧ ReportsDead ticket

def PushRun.Prunes (run : PushRun) (devices : List Device) : Prop :=
  run.devices = devices.filter fun device => device.expoPushToken ∉ run.deleted

section Prune
variable {replies : ℕ → Option ExpoResponse} {content : PushContent} {data : Json}
variable {run : PushRun} {batch tokens dead : List String} {devices : List Device}
variable {items : List Json}

theorem PushRun.mem_prune_deleted (token : String) :
    token ∈ (run.prune dead).deleted ↔ token ∈ run.deleted ∨ token ∈ dead := by
  unfold PushRun.prune
  split
  · rename_i hnil
    subst hnil
    simp
  · exact List.mem_append

theorem PushRun.Prunes.prune (h : run.Prunes devices) (dead : List String) :
    (run.prune dead).Prunes devices := by
  unfold PushRun.prune
  split
  · exact h
  · change run.devices.filter _ = devices.filter _
    rw [h, List.filter_filter]
    apply List.filter_congr
    intro device _
    by_cases hdeleted : device.expoPushToken ∈ run.deleted
    · simp [hdeleted]
    · simp [hdeleted]

theorem not_deadAt_nil (token : String) : ¬ DeadAt batch [] token := by
  rintro ⟨i, -, ticket, hticket, -⟩
  simp at hticket

variable (content data batch) in
theorem sendBatch_wellFormed (h : WellFormedReply (replies run.posted.length) items) :
    ∃ dead, sendBatch replies content data run batch =
        PushRun.prune { run with posted := run.posted ++ [pushMessages content data batch] } dead ∧
      ∀ token, token ∈ dead ↔ DeadAt batch items token := by
  have hswallowed {error : PushError}
      (hread : readTickets (replies run.posted.length) = .error error)
      (hmem : error ∈ swallowedErrors) (hitems : items = []) :
      ∃ dead, sendBatch replies content data run batch =
          PushRun.prune
            { run with posted := run.posted ++ [pushMessages content data batch] } dead ∧
        ∀ token, token ∈ dead ↔ DeadAt batch items token := by
    refine ⟨[], sendBatch_swallowed hread hmem, fun token => ?_⟩
    subst hitems
    exact iff_of_false List.not_mem_nil (not_deadAt_nil token)
  generalize hreply : replies run.posted.length = reply at h hswallowed
  cases h with
  | noResponse => exact hswallowed rfl (by decide : PushError.httpError ∈ swallowedErrors) rfl
  | errorStatus response hstatus => exact hswallowed (readTickets_failed hstatus) (by decide) rfl
  | notJson response hbody =>
    by_cases hstatus : 200 ≤ response.status ∧ response.status < 300
    · exact hswallowed (readTickets_decodeError hstatus hbody) (by decide) rfl
    · exact hswallowed (readTickets_failed hstatus) (by decide) rfl
  | tickets response members items hstatus hbody hdata hitems =>
    have hread : readTickets (replies run.posted.length) = .ok (.array items) := by
      rw [hreply, readTickets_object hstatus hbody, hdata, Option.getD_some]
    have hpairs : ∀ pair ∈ batch.zip items, Readable pair.2 := by
      intro pair hpair
      exact hitems pair.2 (List.of_mem_zip hpair).2
    obtain ⟨dead, hdead⟩ := deadTokens_ok_iff.mpr hpairs
    have hhandle : handleTickets batch (.array items) = .ok dead :=
      (handleTickets_array items hpairs).trans hdead
    refine ⟨dead, ?_, fun token => ?_⟩
    · simp only [sendBatch, hread, hhandle]
    · rw [mem_deadTokens hdead]
      constructor
      · rintro ⟨ticket, hmem, hreport⟩
        obtain ⟨i, htoken, hticket⟩ := mem_zip_iff.mp hmem
        exact ⟨i, htoken, ticket, hticket, hreport⟩
      · rintro ⟨i, htoken, ticket, hticket, hreport⟩
        exact ⟨ticket, mem_zip_iff.mpr ⟨i, htoken, hticket⟩, hreport⟩

variable (content data tokens) in
theorem sendBatches_wellFormed {tickets : ℕ → List Json}
    (wellFormed : ∀ k, WellFormedReply (replies k) (tickets k)) (indices : List ℕ)
    (hrun : run.raised = none) (hprunes : run.Prunes devices) :
    (sendBatches replies content data tokens indices run).raised = none ∧
      (sendBatches replies content data tokens indices run).Prunes devices ∧
      ∀ token, token ∈ (sendBatches replies content data tokens indices run).deleted ↔
        token ∈ run.deleted ∨ ∃ k start, indices[k]? = some start ∧
          DeadAt (slice maxTokensPerRequest tokens start)
            (tickets (run.posted.length + k)) token := by
  induction indices generalizing run with
  | nil => exact ⟨hrun, hprunes, fun token => by simp [sendBatches]⟩
  | cons start rest ih =>
    obtain ⟨dead, hnext, hdead⟩ := sendBatch_wellFormed content data
      (slice maxTokensPerRequest tokens start) (wellFormed run.posted.length)
    have hraised : (sendBatch replies content data run
        (slice maxTokensPerRequest tokens start)).raised = none := by
      rw [hnext, PushRun.prune_raised]
      exact hrun
    have hkept : (sendBatch replies content data run
        (slice maxTokensPerRequest tokens start)).Prunes devices := by
      rw [hnext]
      refine PushRun.Prunes.prune ?_ dead
      exact hprunes
    obtain ⟨hend, hendPrunes, hdeleted⟩ := ih hraised hkept
    simp only [sendBatch_posted_length] at hdeleted
    rw [sendBatches_cons_ok hraised]
    refine ⟨hend, hendPrunes, fun token => ?_⟩
    rw [hdeleted token, hnext, PushRun.mem_prune_deleted, hdead token]
    constructor
    · rintro ((hbefore | hfirst) | ⟨k, s, hs, hlater⟩)
      · exact Or.inl hbefore
      · exact Or.inr ⟨0, start, rfl, hfirst⟩
      · exact Or.inr ⟨k + 1, s, hs, hlater⟩
    · rintro (hbefore | ⟨k, s, hs, hlater⟩)
      · exact Or.inl (Or.inl hbefore)
      · cases k with
        | zero =>
          cases hs
          exact Or.inl (Or.inr hlater)
        | succ k => exact Or.inr ⟨k, s, hs, hlater⟩

end Prune

/-- What a push may do to the devices, given the tickets of each answer. -/
structure ExactPruning (tokens : List String) (tickets : ℕ → List Json) (devices : List Device)
    (run : PushRun) : Prop where
  returns : run.raised = none
  batchLength : ∀ messages ∈ run.posted, messages.length ≤ 100
  recipients : run.posted.flatten.map PushMessage.to_ = tokens
  devices : run.Prunes devices
  deleted : ∀ token, token ∈ run.deleted ↔
    ∃ k batch, (pushBatches tokens)[k]? = some batch ∧ DeadAt batch (tickets k) token
  /-- The ticket of a token is the one at its place in its own batch. -/
  place : ∀ p token, tokens[p]? = some token →
    (token ∈ run.deleted ↔
      ∃ ticket, (tickets (p / 100))[p % 100]? = some ticket ∧ ReportsDead ticket)

section Places
variable {tokens : List String} {tickets : ℕ → List Json} {token : String} {k p : ℕ}

theorem deadAt_place {batch : List String} (hbatch : (pushBatches tokens)[k]? = some batch)
    (hdead : DeadAt batch (tickets k) token) :
    ∃ i < 100, tokens[100 * k + i]? = some token ∧
      ∃ ticket, (tickets k)[i]? = some ticket ∧ ReportsDead ticket := by
  obtain ⟨start, hstart, rfl⟩ := getElem?_pushBatches.mp hbatch
  obtain ⟨rfl, -⟩ := getElem?_starts hstart
  obtain ⟨i, htoken, hticket⟩ := hdead
  have hi : i < maxTokensPerRequest := by
    obtain ⟨hlt, -⟩ := List.getElem?_eq_some_iff.mp htoken
    exact hlt.trans_le (length_slice_le _)
  rw [getElem?_slice _ hi] at htoken
  exact ⟨i, hi, htoken, hticket⟩

theorem deadAt_of_place (hp : tokens[p]? = some token)
    (hdead : ∃ ticket, (tickets (p / 100))[p % 100]? = some ticket ∧ ReportsDead ticket) :
    ∃ batch, (pushBatches tokens)[p / 100]? = some batch ∧
      DeadAt batch (tickets (p / 100)) token := by
  have hmod : p % 100 < maxTokensPerRequest := Nat.mod_lt p (by decide)
  have hplace : maxTokensPerRequest * (p / 100) + p % 100 = p := Nat.div_add_mod p 100
  obtain ⟨hlt, -⟩ := List.getElem?_eq_some_iff.mp hp
  have hcount : p / 100 < count maxTokensPerRequest tokens.length :=
    lt_count_of_mul_lt (by decide) (by omega)
  refine ⟨slice maxTokensPerRequest tokens (maxTokensPerRequest * (p / 100)), ?_, p % 100, ?_,
    hdead⟩
  · refine getElem?_pushBatches.mpr ⟨_, ?_, rfl⟩
    rw [starts, List.getElem?_map, List.getElem?_range hcount]
    rfl
  · rw [getElem?_slice _ hmod, hplace]
    exact hp

end Places

section Exact
variable (replies : ℕ → Option ExpoResponse) (content : PushContent) (data : Json)
variable (tokens : List String) (devices : List Device) (tickets : ℕ → List Json)

theorem sendToTokens_deleted (wellFormed : ∀ k, WellFormedReply (replies k) (tickets k)) :
    (sendToTokens replies content data tokens devices).raised = none ∧
      (sendToTokens replies content data tokens devices).Prunes devices ∧
      ∀ token, token ∈ (sendToTokens replies content data tokens devices).deleted ↔
        ∃ k batch, (pushBatches tokens)[k]? = some batch ∧ DeadAt batch (tickets k) token := by
  by_cases hnil : tokens = []
  · subst hnil
    refine ⟨rfl, by simp [PushRun.Prunes, sendToTokens], fun token => ?_⟩
    refine iff_of_false List.not_mem_nil ?_
    rintro ⟨k, batch, hbatch, -⟩
    cases hbatch
  · rw [sendToTokens, if_neg hnil]
    have hstart : PushRun.Prunes { devices := devices } devices := by simp [PushRun.Prunes]
    obtain ⟨hraised, hprunes, hdeleted⟩ := sendBatches_wellFormed content data tokens wellFormed
      (starts maxTokensPerRequest tokens.length) rfl hstart
    refine ⟨hraised, hprunes, fun token => ?_⟩
    rw [hdeleted token]
    constructor
    · rintro (hnone | ⟨k, start, hstart, hdead⟩)
      · cases hnone
      · rw [List.length_nil, Nat.zero_add] at hdead
        exact ⟨k, _, getElem?_pushBatches.mpr ⟨start, hstart, rfl⟩, hdead⟩
    · rintro ⟨k, batch, hbatch, hdead⟩
      obtain ⟨start, hstart, rfl⟩ := getElem?_pushBatches.mp hbatch
      refine Or.inr ⟨k, start, hstart, ?_⟩
      rwa [List.length_nil, Nat.zero_add]

theorem sendToTokens_prunes_exactly (wellFormed : ∀ k, WellFormedReply (replies k) (tickets k))
    (distinct : tokens.Nodup) :
    ExactPruning tokens tickets devices (sendToTokens replies content data tokens devices) := by
  obtain ⟨hraised, hprunes, hdeleted⟩ :=
    sendToTokens_deleted replies content data tokens devices tickets wellFormed
  have hposted := sendToTokens_posted replies content data tokens devices hraised
  refine ⟨hraised, ?_, ?_, hprunes, hdeleted, ?_⟩
  · intro messages hmem
    rw [hposted, pushBatches, List.map_map, List.mem_map] at hmem
    obtain ⟨start, -, rfl⟩ := hmem
    rw [Function.comp_apply, pushMessages, List.length_map]
    exact length_slice_le start
  · have hto (batch : List String) :
        (pushMessages content data batch).map PushMessage.to_ = batch := by
      rw [pushMessages, List.map_map]
      exact List.map_id batch
    rw [hposted, List.map_flatten, List.map_map]
    have hsame : (List.map PushMessage.to_ ∘ pushMessages content data) = id := funext hto
    rw [hsame, List.map_id]
    exact flatten_starts (by decide)
  · intro p token hp
    rw [hdeleted token]
    constructor
    · rintro ⟨k, batch, hbatch, hdead⟩
      obtain ⟨i, hi, htoken, hticket⟩ := deadAt_place hbatch hdead
      obtain ⟨hlt, -⟩ := List.getElem?_eq_some_iff.mp hp
      have hsame : p = 100 * k + i :=
        (List.getElem?_inj hlt distinct).mp (hp.trans htoken.symm)
      have hdiv : p / 100 = k := by omega
      have hmod : p % 100 = i := by omega
      rw [hdiv, hmod]
      exact hticket
    · intro hticket
      obtain ⟨batch, hbatch, hdead⟩ := deadAt_of_place hp hticket
      exact ⟨p / 100, batch, hbatch, hdead⟩

theorem sendToTokens_prunes_exactly_short :
    ExactPruning ["a", "b", "c"]
      (fun _ => [.object [("status", .string "ok")], .object [("status", .string "error"),
        ("details", .object [("error", .string "DeviceNotRegistered")])]])
      []
      (sendToTokens (fun _ => some ⟨200, .ok (.object [("data", .array
          [.object [("status", .string "ok")], .object [("status", .string "error"),
            ("details", .object [("error", .string "DeviceNotRegistered")])]])])⟩)
        ⟨"Event cancelled", "Gala"⟩ .null ["a", "b", "c"] []) := by
  refine sendToTokens_prunes_exactly _ _ _ _ _ _ (fun k => ?_) (by decide)
  refine .tickets _ _ _ (by decide) rfl rfl ?_
  intro ticket hticket
  simp only [List.mem_cons, List.not_mem_nil, or_false] at hticket
  rcases hticket with rfl | rfl
  · refine ⟨_, rfl, fun h => ?_⟩
    simp [Json.member] at h
  · refine ⟨_, rfl, fun _ details h => ?_⟩
    cases h
    exact ⟨_, rfl⟩

end Exact
end Hefest
